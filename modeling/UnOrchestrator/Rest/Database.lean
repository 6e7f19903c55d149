import UnOrchestrator.Lib.Abort
import UnOrchestrator.Lib.Table

/-!
# The account database

The six tables that `SQLiteManager::createTables` makes, with the statements that
`SQLiteManager` executes on them. Every column is text; a table carries the
distinctness of its primary key, and the database carries the `UNIQUE` constraint on
`LOGIN.USER`, so that an insert that would violate one leaves the table as it is.

Two statements are written in the source differently from what they look like, and
the model follows what is executed:

- `insertResource` binds the owner's default permission as the group's as well;
- `deleteUser` hands two statements to `sqlite3_prepare_v2`, which compiles the
  first only, so no row of `LOGIN` goes away with a user.
-/

namespace UnOrchestrator.Rest

/-- A row of `USERS`. -/
structure UserRow where
  user : String
  pwd : String
  membership : String
  deriving DecidableEq, Repr

/-- A row of `LOGIN`. -/
structure LoginRow where
  token : String
  user : String
  timestamp : String
  deriving DecidableEq, Repr

/-- A row of `USER_CREATION_PERMISSIONS`. -/
structure CreationPermissionRow where
  user : String
  genericResource : String
  permission : String
  deriving DecidableEq, Repr

/-- The four permission columns: one string for each class of users, one character of it for
each operation. -/
structure UsagePermissions where
  ownerPermission : String
  groupPermission : String
  allPermission : String
  adminPermission : String
  deriving DecidableEq, Repr

/-- A row of `DEFAULT_USAGE_PERMISSIONS`. -/
structure DefaultPermissionsRow extends UsagePermissions where
  genericResource : String
  deriving DecidableEq, Repr

/-- A row of `CURRENT_RESOURCES_PERMISSIONS`. -/
structure ResourceRow extends UsagePermissions where
  genericResource : String
  resource : String
  owner : String
  deriving DecidableEq, Repr

/-- The primary key of `USER_CREATION_PERMISSIONS`. -/
def CreationPermissionRow.key (row : CreationPermissionRow) : String × String :=
  (row.user, row.genericResource)

/-- The primary key of `CURRENT_RESOURCES_PERMISSIONS`. -/
def ResourceRow.key (row : ResourceRow) : String × String :=
  (row.genericResource, row.resource)

/-- The database, a field for each table. -/
structure Database where
  users : Table UserRow.user
  login : Table LoginRow.token
  genericResources : Table (id : String → String)
  userCreationPermissions : Table CreationPermissionRow.key
  defaultUsagePermissions : Table DefaultPermissionsRow.genericResource
  currentResourcesPermissions : Table ResourceRow.key
  loggedOnce : (login.rows.map LoginRow.user).Nodup

/-- What the server knows about a user; a user found by name has no token. -/
structure UserInfo where
  user : String
  pwd : String
  group : String
  token : Option String
  deriving DecidableEq, Repr

/-- The operations a permission is asked for. -/
inductive Opcode where
  | read
  | update
  | delete
  | create
  deriving DecidableEq, Repr

/-- The position of an operation in a permission string. -/
def Opcode.index : Opcode → Nat
  | .read => 0
  | .update => 1
  | .delete => 2
  | .create => 3

def baseUrlGraph : String := "NF-FG"
def baseUrlUser : String := "users"
def baseUrlGroup : String := "groups"
def admin : String := "admin"
def allow : Char := 'A'
def deny : Char := 'D'

/-- `strncmp(permissions + index, c, 1) == 0`. -/
def permissionIs (permissions : String) (index : Nat) (c : Char) : Bool :=
  permissions.toList[index]? == some c

namespace Database

/-- The tables that `createTables` makes, by name. -/
def tableNames : List String :=
  ["USERS", "LOGIN", "GENERIC_RESOURCES", "USER_CREATION_PERMISSIONS",
    "DEFAULT_USAGE_PERMISSIONS", "CURRENT_RESOURCES_PERMISSIONS"]

/-- `sqlite3_prepare_v2` on a statement over one table: it fails on a name no table has. -/
def prepares (table : String) : Bool := tableNames.contains table

/-- The database right after `createTables`. -/
def createTables : Database where
  users := .empty
  login := .empty
  genericResources := .empty
  userCreationPermissions := .empty
  defaultUsagePermissions := .empty
  currentResourcesPermissions := .empty
  loggedOnce := List.nodup_nil

variable (db : Database)

def getUserByToken (token : String) : Option UserInfo :=
  (db.users.first fun row => db.login.any fun l => l.token = token && l.user = row.user).map
    fun row => ⟨row.user, row.pwd, row.membership, some token⟩

def getGroup (user : String) : Option String :=
  (db.users.first fun row => row.user = user).map UserRow.membership

/-- `insertResource(generic_resource, resource, owner)`. The text bound as the group's
permission is the owner's, cut to the length of the group's. -/
def insertResource (genericResource resource owner : String) : Except Abort Database := do
  let defaults ← Abort.orElse .assertion
    (db.defaultUsagePermissions.first fun row => row.genericResource = genericResource)
  let groupPermission := String.ofList
    (defaults.ownerPermission.toList.take defaults.groupPermission.length)
  pure { db with
    currentResourcesPermissions := db.currentResourcesPermissions.insert
      ⟨{ defaults.toUsagePermissions with groupPermission }, genericResource, resource, owner⟩ }

/-- `insertResource(generic_resource)`. -/
def insertGenericResource (genericResource : String) : Database :=
  { db with genericResources := db.genericResources.insert genericResource }

def insertLogin (user token timestamp : String) : Database :=
  if h : user ∈ db.login.rows.map LoginRow.user then db
  else { db with
    login := db.login.insert ⟨token, user, timestamp⟩
    loggedOnce := Table.insert_unique db.loggedOnce h }

def insertUser (user pwd group : String) : Database :=
  { db with users := db.users.insert ⟨user, pwd, group⟩ }

/-- `deleteUser(user)`: of the two statements in the text only `delete from USERS` is
compiled. -/
def deleteUser (user : String) : Database :=
  { db with users := db.users.delete (fun row => row.user = user) }

def deleteResource (genericResource resource : String) : Database :=
  { db with
    currentResourcesPermissions := db.currentResourcesPermissions.delete
      (fun row => row.key = (genericResource, resource)) }

/-- `insertUserCreationPermission`: one character of the permission is bound. -/
def insertUserCreationPermission (user genericResource permission : String) : Database :=
  { db with
    userCreationPermissions := db.userCreationPermissions.insert
      ⟨user, genericResource, String.ofList (permission.toList.take 1)⟩ }

def insertDefaultUsagePermissions (genericResource : String) (p : UsagePermissions) : Database :=
  { db with
    defaultUsagePermissions := db.defaultUsagePermissions.insert ⟨p, genericResource⟩ }

/-- The permissions every generic resource starts with. -/
def defaultNffgPermissions : UsagePermissions := ⟨"AAA", "ADD", "DDD", "AAA"⟩

/-- `initDB` of the initializer, with the hash of the administrator's password. -/
def initDB (hashPwd : String) : Except Abort Database := do
  let db := createTables
  let db := [baseUrlGraph, baseUrlUser, baseUrlGroup].foldl insertGenericResource db
  let db := [baseUrlGraph, baseUrlUser, baseUrlGroup].foldl
    (fun db gr => db.insertDefaultUsagePermissions gr defaultNffgPermissions) db
  let db := [baseUrlGraph, baseUrlUser, baseUrlGroup].foldl
    (fun db gr => db.insertUserCreationPermission admin gr allow.toString) db
  let db ← db.insertResource baseUrlGroup admin admin
  let db ← db.insertResource baseUrlUser admin admin
  pure (db.insertUser admin hashPwd admin)

variable {db}

/-- A user found by a token is one whose login holds it. -/
theorem getUserByToken_some {token : String} {usr : UserInfo}
    (h : db.getUserByToken token = some usr) :
    ∃ l ∈ db.login, l.token = token ∧ l.user = usr.user := by
  simp only [getUserByToken, Option.map_eq_some_iff] at h
  obtain ⟨row, hrow, rfl⟩ := h
  simpa only [Table.any_eq_true, Bool.and_eq_true, decide_eq_true_eq] using
    (Table.mem_of_first hrow).2

theorem getGroup_of_mem {row : UserRow} (h : row ∈ db.users) :
    db.getGroup row.user = some row.membership := by
  cases hfound : db.users.first (fun r => r.user = row.user) with
  | none =>
    have := Table.first_eq_none.mp hfound row h
    simp only [decide_true, Bool.true_eq_false] at this
  | some found =>
    obtain ⟨hmem, huser⟩ := Table.mem_of_first hfound
    have heq : found = row := Table.eq_of_key hmem h (of_decide_eq_true huser)
    simp only [getGroup, hfound, Option.map_some, heq]

end Database

end UnOrchestrator.Rest
