import UnOrchestrator.Lib.Run
import UnOrchestrator.Rest.Database

/-!
# Authorization

`SecurityManager` decides three times over whether a user may do something: for one
resource (`isAuthorized`), for all resources of a kind (`isAuthorizedGeneric`) and,
in the database manager, for the resources to list (`getAllowedResourcesNames`). All
three pick the permission string by the same cascade and look at the character of
the operation.

The policy they are meant to implement is stated apart from them: a user belongs to
one class with respect to a resource (`classOf`), and the class's string grants the
operation or not (`Grants`). The statement that reads a single resource names a
table that was never made, so it is never compiled and the answer stays at its
initial value; `policyEnforced_iff_granted` says exactly when that does no harm.
-/

namespace UnOrchestrator.Rest

namespace Database

variable (db : Database) (usr : UserInfo) (op : Opcode)

/-- The cascade that picks the permission string of a user; comparing with the group of an
owner that is not in `USERS` reads through a null pointer. -/
def permissionsFor (row : ResourceRow) : Except Abort String :=
  if usr.user = admin then pure row.adminPermission
  else if usr.user = row.owner then pure row.ownerPermission
  else do
    let ownerGroup ← Abort.orElse .undefinedBehaviour (db.getGroup row.owner)
    pure (if usr.group = ownerGroup then row.groupPermission else row.allPermission)

/-- The rows that `where GENERIC_RESOURCE = generic_resource` selects. -/
def resourcesOf (genericResource : String) : List ResourceRow :=
  db.currentResourcesPermissions.rows.filter (fun row => row.genericResource = genericResource)

/-- The loop of `isAuthorized(usr, operation, generic_resource)`. -/
def noneDenied : List ResourceRow → Except Abort Bool
  | [] => pure true
  | row :: rows => do
    let permissions ← db.permissionsFor usr row
    if permissionIs permissions op.index deny then pure false else noneDenied rows

/-- `isAuthorized(usr, operation, generic_resource)`. -/
def isAuthorizedGeneric (genericResource : String) : Except Abort Bool :=
  db.noneDenied usr op (db.resourcesOf genericResource)

/-- `isAuthorizedForCreation`: the resource itself is not looked at. -/
def isAuthorizedForCreation (user genericResource : String) : Bool :=
  match db.userCreationPermissions.first (fun row => row.key = (user, genericResource)) with
  | some row => permissionIs row.permission 0 allow
  | none => false

/-- `isAuthorized(usr, operation, generic_resource, resource)`. -/
def isAuthorized (genericResource resource : String) : Except Abort Bool := do
  Abort.assert usr.token.isSome
  if op = .create then pure (db.isAuthorizedForCreation usr.user genericResource)
  else if prepares "CURRENT_RESOURCE_PERMISSIONS" then
    match db.currentResourcesPermissions.first
        (fun row => row.key = (genericResource, resource)) with
    | some row => do
      let permissions ← db.permissionsFor usr row
      pure (permissionIs permissions op.index allow)
    | none => pure true
  else pure true

/-- `isAuthenticated`. -/
def isAuthenticated (token : String) : Bool := db.login.any (fun row => row.token = token)

/-- The loop of `getAllowedResourcesNames`. -/
def allowedNames : List ResourceRow → Except Abort (List String)
  | [] => pure []
  | row :: rows => do
    let permissions ← db.permissionsFor usr row
    let names ← allowedNames rows
    pure (if permissionIs permissions op.index allow then row.resource :: names else names)

def getAllowedResourcesNames (genericResource : String) : Except Abort (List String) :=
  if op = .create then pure [] else db.allowedNames usr op (db.resourcesOf genericResource)

end Database

/-! ## The policy -/

/-- The classes of users a resource distinguishes. -/
inductive PermissionClass where
  | admin
  | owner
  | group
  | all
  deriving DecidableEq, Repr

/-- The permission string of a class. -/
def UsagePermissions.ofClass (p : UsagePermissions) : PermissionClass → String
  | .admin => p.adminPermission
  | .owner => p.ownerPermission
  | .group => p.groupPermission
  | .all => p.allPermission

namespace Database

/-- The class of a user with respect to a resource: the administrator, else its owner, else a
member of the owner's group, else anybody. -/
def classOf (db : Database) (usr : UserInfo) (row : ResourceRow) : PermissionClass :=
  if usr.user = Rest.admin then .admin
  else if usr.user = row.owner then .owner
  else if db.getGroup row.owner = some usr.group then .group
  else .all

/-- The policy: the class's permission string has the allowing character for the operation. -/
def Grants (db : Database) (usr : UserInfo) (op : Opcode) (row : ResourceRow) : Prop :=
  permissionIs (row.ofClass (db.classOf usr row)) op.index allow = true

/-- A permission string as the initializer writes them: three characters, each `A` or `D`. -/
def IsPermission (s : String) : Prop := s.length = 3 ∧ ∀ c ∈ s.toList, c = allow ∨ c = deny

/-- What the policy assumes of a database: every permission is well formed, and every owner is
a user. -/
structure WellFormed (db : Database) : Prop where
  permissions : ∀ row ∈ db.currentResourcesPermissions, ∀ c, IsPermission (row.ofClass c)
  owners : ∀ row ∈ db.currentResourcesPermissions, ∃ u ∈ db.users, u.user = row.owner

instance (db : Database) (usr : UserInfo) (op : Opcode) (row : ResourceRow) :
    Decidable (db.Grants usr op row) :=
  inferInstanceAs (Decidable (_ = true))

/-- The three decisions of the security manager for an operation on the resources of a kind
agree with the policy and with each other. -/
structure PolicyEnforced (db : Database) (usr : UserInfo) (op : Opcode)
    (genericResource : String) : Prop where
  /-- One resource: authorized exactly when the policy grants the operation. -/
  single : ∀ row ∈ db.resourcesOf genericResource,
    db.isAuthorized usr op genericResource row.resource = .ok true ↔ db.Grants usr op row
  /-- All of them: authorized exactly when each one is. -/
  aggregated : db.isAuthorizedGeneric usr op genericResource = .ok true ↔
    ∀ row ∈ db.resourcesOf genericResource,
      db.isAuthorized usr op genericResource row.resource = .ok true
  /-- A resource is listed exactly when it is authorized. -/
  listed : ∀ row ∈ db.resourcesOf genericResource,
    (∃ names, db.getAllowedResourcesNames usr op genericResource = .ok names ∧
      row.resource ∈ names) ↔
    db.isAuthorized usr op genericResource row.resource = .ok true

variable {db : Database} {usr : UserInfo} {op : Opcode} {genericResource : String}

theorem mem_resourcesOf {row : ResourceRow} : row ∈ db.resourcesOf genericResource ↔
    row ∈ db.currentResourcesPermissions ∧ row.genericResource = genericResource := by
  simp only [resourcesOf, List.mem_filter, decide_eq_true_eq, Table.mem_rows]

/-- The cascade picks the string of the user's class, for an owner that is a user. -/
theorem permissionsFor_eq {row : ResourceRow} (howner : ∃ u ∈ db.users, u.user = row.owner) :
    db.permissionsFor usr row = .ok (row.ofClass (db.classOf usr row)) := by
  obtain ⟨u, hu, hname⟩ := howner
  have hgroup : db.getGroup row.owner = some u.membership := hname ▸ getGroup_of_mem hu
  unfold permissionsFor classOf
  by_cases hadmin : usr.user = Rest.admin
  · rw [if_pos hadmin, if_pos hadmin]
    rfl
  · rw [if_neg hadmin, if_neg hadmin]
    by_cases hown : usr.user = row.owner
    · rw [if_pos hown, if_pos hown]
      rfl
    · rw [if_neg hown, if_neg hown, hgroup, Abort.orElse_some]
      show Except.ok (if usr.group = u.membership then _ else _) = _
      by_cases hmember : usr.group = u.membership
      · rw [if_pos hmember, if_pos (by rw [hmember])]
        rfl
      · rw [if_neg hmember, if_neg (fun h => hmember (Option.some.inj h).symm)]
        rfl

/-- On a well-formed string an operation that can be asked for is denied or allowed. -/
theorem denied_iff_not_allowed {s : String} (hs : IsPermission s) (hop : op ≠ .create) :
    permissionIs s op.index deny = true ↔ ¬ permissionIs s op.index allow = true := by
  have hindex : op.index < s.toList.length := by
    rw [String.length_toList, hs.1]
    cases op with
    | create => exact absurd rfl hop
    | read => decide
    | update => decide
    | delete => decide
  have hchar : s.toList[op.index] = allow ∨ s.toList[op.index] = deny :=
    hs.2 _ (List.getElem_mem hindex)
  unfold permissionIs
  rw [List.getElem?_eq_getElem hindex]
  rcases hchar with hchar | hchar <;> rw [hchar] <;> decide

/-- The loop over all resources answers whether the policy grants each of them. -/
theorem noneDenied_eq (hop : op ≠ .create) (rows : List ResourceRow)
    (howner : ∀ row ∈ rows, ∃ u ∈ db.users, u.user = row.owner)
    (hperm : ∀ row ∈ rows, ∀ c, IsPermission (row.ofClass c)) :
    db.noneDenied usr op rows = .ok (decide (∀ row ∈ rows, db.Grants usr op row)) := by
  induction rows with
  | nil => simp only [noneDenied, List.not_mem_nil, false_implies, implies_true, decide_true]; rfl
  | cons row rows ih =>
    have hrest := ih (fun r hr => howner r (List.mem_cons_of_mem _ hr))
      (fun r hr => hperm r (List.mem_cons_of_mem _ hr))
    have hrow : db.permissionsFor usr row = _ := permissionsFor_eq (howner row List.mem_cons_self)
    have hiff := denied_iff_not_allowed
      (hperm row List.mem_cons_self (db.classOf usr row)) hop
    rw [noneDenied, hrow, hrest]
    simp only [List.forall_mem_cons]
    show (if _ then _ else _) = _
    by_cases hgrant : db.Grants usr op row
    · rw [if_neg (fun h => hiff.mp h hgrant)]
      simp only [hgrant, true_and]
    · rw [if_pos (hiff.mpr hgrant)]
      simp only [hgrant, false_and, decide_false]
      rfl

/-- The loop that lists resources lists those the policy grants. -/
theorem allowedNames_eq (rows : List ResourceRow)
    (howner : ∀ row ∈ rows, ∃ u ∈ db.users, u.user = row.owner) :
    db.allowedNames usr op rows =
      .ok ((rows.filter (fun row => db.Grants usr op row)).map ResourceRow.resource) := by
  induction rows with
  | nil => rfl
  | cons row rows ih =>
    have hrow : db.permissionsFor usr row = _ := permissionsFor_eq (howner row List.mem_cons_self)
    rw [allowedNames, hrow, ih (fun r hr => howner r (List.mem_cons_of_mem _ hr))]
    show Except.ok (if _ then _ else _) = _
    by_cases hgrant : db.Grants usr op row
    · simp only [List.filter_cons, hgrant, decide_true, if_true, List.map_cons]
      exact congrArg Except.ok (if_pos hgrant)
    · simp only [List.filter_cons, hgrant, decide_false, Bool.false_eq_true, if_false]
      exact congrArg Except.ok (if_neg hgrant)

/-- The statement for one resource is never compiled: everything but a creation is
authorized. -/
theorem isAuthorized_eq_ok_true (hop : op ≠ .create) (htoken : usr.token.isSome = true)
    (resource : String) : db.isAuthorized usr op genericResource resource = .ok true := by
  have hprepare : prepares "CURRENT_RESOURCE_PERMISSIONS" = false := by decide
  unfold isAuthorized
  rw [htoken, if_neg hop, hprepare]
  rfl

/-- The decisions of the security manager follow the policy for an operation on the resources
of a kind exactly when the policy grants the operation on every one of them. -/
theorem policyEnforced_iff_granted (hwf : db.WellFormed) (hop : op ≠ .create)
    (htoken : usr.token.isSome = true) :
    db.PolicyEnforced usr op genericResource ↔
      ∀ row ∈ db.resourcesOf genericResource, db.Grants usr op row := by
  have hsingle : ∀ resource, db.isAuthorized usr op genericResource resource = .ok true :=
    isAuthorized_eq_ok_true hop htoken
  have howner : ∀ row ∈ db.resourcesOf genericResource, ∃ u ∈ db.users, u.user = row.owner :=
    fun row hrow => hwf.owners row (mem_resourcesOf.mp hrow).1
  have hperm : ∀ row ∈ db.resourcesOf genericResource, ∀ c, IsPermission (row.ofClass c) :=
    fun row hrow => hwf.permissions row (mem_resourcesOf.mp hrow).1
  constructor
  · intro h row hrow
    exact (h.single row hrow).mp (hsingle row.resource)
  · intro hall
    refine ⟨fun row hrow => ?_, ?_, fun row hrow => ?_⟩
    · exact ⟨fun _ => hall row hrow, fun _ => hsingle row.resource⟩
    · rw [isAuthorizedGeneric, noneDenied_eq hop _ howner hperm, decide_eq_true hall]
      exact ⟨fun _ row _ => hsingle row.resource, fun _ => rfl⟩
    · have hnames : db.allowedNames usr op _ = _ := allowedNames_eq _ howner
      have hlisted : row.resource ∈ (((db.resourcesOf genericResource).filter
          (fun row => db.Grants usr op row)).map ResourceRow.resource) :=
        List.mem_map_of_mem (List.mem_filter.mpr ⟨hrow, decide_eq_true (hall row hrow)⟩)
      refine ⟨fun _ => hsingle row.resource, fun _ => ⟨_, ?_, hlisted⟩⟩
      rw [getAllowedResourcesNames, if_neg hop, hnames]

/-- A graph of one user, and another user in another group. -/
def privateGraph : Database where
  users := ⟨[⟨"alice", "", "staff"⟩, ⟨"bob", "", "guests"⟩], by decide⟩
  login := .empty
  genericResources := .empty
  userCreationPermissions := .empty
  defaultUsagePermissions := .empty
  currentResourcesPermissions :=
    ⟨[⟨⟨"AAA", "AAA", "DDD", "AAA"⟩, baseUrlGraph, "g1", "alice"⟩], by decide⟩
  loggedOnce := List.nodup_nil

theorem privateGraph_wellFormed : privateGraph.WellFormed := by
  constructor
  · intro row hrow c
    obtain rfl := List.mem_singleton.mp hrow
    cases c <;> exact ⟨by decide, by simp [UsagePermissions.ofClass, allow, deny]⟩
  · intro row hrow
    obtain rfl := List.mem_singleton.mp hrow
    exact ⟨⟨"alice", "", "staff"⟩, List.mem_cons_self, rfl⟩

/-- A stranger may delete a graph that the policy denies to strangers. -/
theorem isAuthorized_ignores_denial :
    privateGraph.WellFormed ∧
      privateGraph.isAuthorized ⟨"bob", "", "guests", some "t"⟩ .delete baseUrlGraph "g1" =
        .ok true ∧
      ¬ privateGraph.PolicyEnforced ⟨"bob", "", "guests", some "t"⟩ .delete baseUrlGraph := by
  refine ⟨privateGraph_wellFormed, by decide, fun h => ?_⟩
  have hgrant := (h.single _ List.mem_cons_self).mp (by decide)
  exact absurd hgrant (by decide)

/-- The owner, who may update every graph there is, is treated as the policy says. -/
theorem policyEnforced_for_owner :
    privateGraph.PolicyEnforced ⟨"alice", "", "staff", some "t"⟩ .update baseUrlGraph :=
  (policyEnforced_iff_granted privateGraph_wellFormed (by decide) rfl).mpr (by
    intro row hrow
    obtain rfl := List.mem_singleton.mp (mem_resourcesOf.mp hrow).1
    decide)

/-! ## Runs

Clients choose the order of the statements that change the tables. -/

inductive Statement where
  | insertResource (genericResource resource owner : String)
  | insertLogin (user token timestamp : String)
  | insertUser (user pwd group : String)
  | insertUserCreationPermission (user genericResource permission : String)
  | deleteUser (user : String)
  | deleteResource (genericResource resource : String)

def execute (db : Database) : Statement → Except Abort Database
  | .insertResource gr resource owner => db.insertResource gr resource owner
  | .insertLogin user token time => pure (db.insertLogin user token time)
  | .insertUser user pwd group => pure (db.insertUser user pwd group)
  | .insertUserCreationPermission user gr p => pure (db.insertUserCreationPermission user gr p)
  | .deleteUser user => pure (db.deleteUser user)
  | .deleteResource gr resource => pure (db.deleteResource gr resource)

variable {db' : Database} {st : Statement}

/-- Logins and defaults stay, and a new resource has the owner's default for the group, cut to the
length of the group's. -/
theorem execute_ok (h : db.execute st = .ok db') :
    (∀ l ∈ db.login, l ∈ db'.login) ∧ db'.defaultUsagePermissions = db.defaultUsagePermissions ∧
      ∀ row ∈ db'.currentResourcesPermissions, row ∈ db.currentResourcesPermissions ∨
        ∃ d ∈ db.defaultUsagePermissions, row.ownerPermission = d.ownerPermission ∧
          row.groupPermission = .ofList (d.ownerPermission.toList.take d.groupPermission.length) := by
  cases st with
  | insertResource =>
    simp only [execute, insertResource, Abort.bind_eq_ok, Abort.orElse_eq_ok, Abort.pure_eq_ok] at h
    obtain ⟨d, hd, rfl⟩ := h
    refine ⟨fun _ hl => hl, rfl, fun row hrow => ?_⟩
    obtain hrow | ⟨rfl, -⟩ := Table.mem_insert.mp hrow
    · exact .inl hrow
    · exact .inr ⟨d, (Table.mem_of_first hd).1, rfl, rfl⟩
  | insertLogin =>
    cases h
    unfold insertLogin
    split
    · exact ⟨fun _ hl => hl, rfl, fun _ => .inl⟩
    · exact ⟨fun _ hl => Table.mem_insert.mpr (.inl hl), rfl, fun _ => .inl⟩
  | deleteResource =>
    cases h
    exact ⟨fun _ hl => hl, rfl, fun _ hrow => .inl (Table.mem_delete.mp hrow).1⟩
  | _ =>
    cases h
    exact ⟨fun _ hl => hl, rfl, fun _ => .inl⟩

/-- A session never ends, and is for one name. -/
theorem run_keepsSession {l : LoginRow} (hl : l ∈ db.login) (statements : List Statement) :
    Run.Always execute (fun db => db.isAuthenticated l.token = true ∧
      ∀ usr, db.getUserByToken l.token = some usr → usr.user = l.user) db statements := by
  apply Run.always_of_invariant (fun _ _ _ hl _ h => (execute_ok h).1 l hl) _ hl Run.everyStep_true
  intro db hl
  refine ⟨Table.any_eq_true.mpr ⟨l, hl, decide_eq_true rfl⟩, fun usr husr => ?_⟩
  obtain ⟨l', hl', htoken, huser⟩ := getUserByToken_some husr
  rw [← huser, Table.eq_of_key hl' hl htoken]

/-- A user is deleted and created again: the old token is good for the new one. -/
theorem session_survives_deletion :
    let db := createTables.insertLogin "eve" "t" ""
    let statements := [.deleteUser "eve", .insertUser "eve" "" ""]
    ((Run.exec execute db statements).toOption.bind (·.getUserByToken "t")).isSome ∧
      Run.Always execute (fun db => db.isAuthenticated "t" = true ∧
        ∀ usr, db.getUserByToken "t" = some usr → usr.user = "eve") db statements :=
  ⟨by decide, run_keepsSession (l := ⟨"t", "eve", ""⟩) (List.mem_singleton_self _) _⟩

/-- The owner's permission stands in the place of the group's. -/
structure GroupAsOwner (db : Database) : Prop where
  resources : ∀ row ∈ db.currentResourcesPermissions, row.groupPermission = row.ownerPermission
  defaults : ∀ row ∈ db.defaultUsagePermissions,
    row.groupPermission.length = row.ownerPermission.length

theorem GroupAsOwner.execute (h : GroupAsOwner db) (hrun : db.execute st = .ok db') :
    GroupAsOwner db' := by
  obtain ⟨-, hdefaults, hresources⟩ := execute_ok hrun
  refine ⟨fun row hrow => ?_, hdefaults ▸ h.defaults⟩
  obtain hrow | ⟨d, hd, howner, hgroup⟩ := hresources row hrow
  · exact h.resources row hrow
  · rw [hgroup, howner, h.defaults d hd, ← String.length_toList, List.take_length, String.ofList_toList]

/-- From the initial database on, the group of an owner may do what the owner may. -/
theorem run_groupAsOwner (hashPwd : String) (statements : List Statement) :
    ∃ db, initDB hashPwd = .ok db ∧
      Run.Always execute (fun db => ∀ row ∈ db.currentResourcesPermissions, ∀ usr usr' op,
        db.classOf usr row = .owner → db.classOf usr' row = .group →
          (db.Grants usr' op row ↔ db.Grants usr op row)) db statements := by
  refine ⟨_, rfl, Run.always_of_invariant (fun _ _ _ h _ => GroupAsOwner.execute h) ?_ ⟨?_, ?_⟩
    Run.everyStep_true⟩
  · intro db h row hrow usr usr' op howner hgroup
    simp only [Grants, howner, hgroup, UsagePermissions.ofClass, h.resources row hrow]
  · show ∀ row ∈ ([_, _] : List ResourceRow), _
    decide
  · show ∀ row ∈ ([_, _, _] : List DefaultPermissionsRow), _
    decide

end Database

end UnOrchestrator.Rest
