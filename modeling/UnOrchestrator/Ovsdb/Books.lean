import UnOrchestrator.Ovsdb.Pieces

/-!
# The books of the plug-in

What the plug-in and the database know about ports together: the switches, the lists of names and
uuids, the rows and the columns. A port is placed or taken out, a bridge is added or forgotten; every
piece of an operation is one of these on the books, or leaves them alone.

`Tidy` says that the two sides agree: the lists of a switch are the ports in the column of its bridge,
every uuid in a list is that of a row of the right kind on the right switch, and, for some families of
ports, a name and the uuid in the same place are those of one row.
-/

namespace UnOrchestrator.Ovsdb

open Function (update update_eq_self update_of_ne update_self)

structure Books where
  switchId : Nat → String
  switchUuid : Std.ExtTreeMap Nat String compare
  names : Family × Nat → List String
  uuids : Family × Nat → List String
  issued : Nat
  ports : List PortRow
  columns : String → Option (List String)

def State.books (s : State) : Books where
  switchId := s.switchId
  switchUuid := s.switchUuid
  names := s.names
  uuids := s.uuids
  issued := s.server.issued
  ports := s.server.ports
  columns := s.server.columns

/-- Choosing the name of a port leaves the books alone. -/
theorem Chosen.books {env : Env} {p : String} {d : Nat} {s s' : State} {nfPort : Option PortType}
    {choice : PortChoice} (h : Chosen env p d s nfPort choice s') : s'.books = s.books :=
  h.preserves _ (fun _ => rfl) (fun _ _ _ => rfl) (fun _ _ => rfl)

/-- The name under which the plug-in knows a port. -/
def PortSpec.label (spec : PortSpec) : String :=
  match spec.purpose with
  | .gre id => id
  | _ => spec.name

namespace Books

variable (env : Env) (b : Books)

def bridgePorts (d : Nat) : List String := b.uuids (.port, d) ++ b.uuids (.vport, d) ++ b.uuids (.gport, d)

/-- The switch has a bridge. -/
def On (d : Nat) : Prop := ∃ u, b.switchUuid[d]? = some u

/-- The port is in the column of its bridge. -/
def Live (row : PortRow) : Prop := ∃ column, b.columns row.bridge = some column ∧ row.uuid ∈ column

/-- A new bridge. -/
def addBridge (d : Nat) : Books :=
  { b with
    switchId := Function.update b.switchId d (bridgeName d)
    switchUuid := b.switchUuid.insert d (env.uuid (b.issued + 1))
    issued := b.issued + 2
    columns := Function.update b.columns (env.uuid (b.issued + 1)) (some []) }

/-- The row of the next port. -/
def newRow (u : String) (spec : PortSpec) : PortRow :=
  { spec with uuid := env.uuid (b.issued + 1), bridge := u }

/-- A new port on the switch with the given bridge, not named yet. -/
def insert (u : String) (spec : PortSpec) : Books :=
  { b with
    uuids := Paired.push b.uuids spec.key (env.uuid (b.issued + 1))
    issued := b.issued + 2
    ports := b.ports ++ [b.newRow env u spec]
    columns := Function.update b.columns u
      (some (b.bridgePorts spec.switch ++ [env.uuid (b.issued + 1)])) }

def pushName (key : Family × Nat) (name : String) : Books :=
  { b with names := Paired.push b.names key name }

/-- A new port on the switch with the given bridge. -/
def place (u : String) (spec : PortSpec) : Books := (b.insert env u spec).pushName spec.key spec.label

def setLists (key : Family × Nat) (names uuids : List String) : Books :=
  { b with names := Function.update b.names key names, uuids := Function.update b.uuids key uuids }

/-- The column of a bridge is written. -/
def writePorts (u : String) (d : Nat) : Books :=
  { b with columns := Function.update b.columns u (some (b.bridgePorts d)) }

/-- The switch goes away. -/
def forget (d : Nat) : Books :=
  { b with
    names := Function.update (Function.update b.names (.port, d) []) (.vport, d) []
    uuids := Function.update (Function.update b.uuids (.port, d) []) (.vport, d) []
    switchUuid := b.switchUuid.erase d
    columns := fun u =>
      if u ∈ (b.switchUuid.erase d).toList.map Prod.snd then b.columns u else none }

theorem on_iff {b : Books} {d : Nat} : b.On d ↔ d ∈ b.switchUuid := by
  rw [On, Std.ExtTreeMap.mem_iff_isSome_getElem?, Option.isSome_iff_exists]

theorem columns_place_self (u : String) (spec : PortSpec) : (b.place env u spec).columns u =
    some (b.bridgePorts spec.switch ++ [env.uuid (b.issued + 1)]) :=
  update_self ..

theorem columns_place_of_ne {u u' : String} (spec : PortSpec) (h : u' ≠ u) :
    (b.place env u spec).columns u' = b.columns u' :=
  update_of_ne h ..

theorem columns_writePorts_self (u : String) (d : Nat) :
    (b.writePorts u d).columns u = some (b.bridgePorts d) :=
  update_self ..

theorem setLists_self (key : Family × Nat) : b.setLists key (b.names key) (b.uuids key) = b := by
  rw [setLists, update_eq_self, update_eq_self]

theorem setLists_setLists (key : Family × Nat) (names uuids names' uuids' : List String) :
    (b.setLists key names uuids).setLists key names' uuids' = b.setLists key names' uuids' := by
  simp only [setLists, Function.update_idem]

/-- The lists of a switch that goes away, except those of tunnels, are empty. -/
theorem lists_forget (d : Nat) (key : Family × Nat) :
    (b.forget d).uuids key = b.uuids key ∧ (b.forget d).names key = b.names key ∨
      key.2 = d ∧ (b.forget d).uuids key = [] ∧ (b.forget d).names key = [] := by
  simp only [forget]
  by_cases hvport : key = (.vport, d)
  · subst hvport
    simp
  · rw [update_of_ne hvport, update_of_ne hvport]
    by_cases hport : key = (.port, d)
    · subst hport
      simp
    · rw [update_of_ne hport, update_of_ne hport]
      exact .inl ⟨rfl, rfl⟩

theorem mem_bridgePorts {b : Books} {d : Nat} {u : String} :
    u ∈ b.bridgePorts d ↔ ∃ f, u ∈ b.uuids (f, d) := by
  simp only [bridgePorts, List.mem_append]
  constructor
  · rintro ((h | h) | h)
    · exact ⟨.port, h⟩
    · exact ⟨.vport, h⟩
    · exact ⟨.gport, h⟩
  · rintro ⟨f, h⟩
    cases f with
    | port => exact .inl (.inl h)
    | vport => exact .inl (.inr h)
    | gport => exact .inr h

end Books

/-- A name and a uuid in the lists of a key are those of one row. -/
def Describes (ports : List PortRow) (key : Family × Nat) (name u : String) : Prop :=
  ∃ row ∈ ports, row.uuid = u ∧ row.key = key ∧ row.label = name

/-- The uuid was given out. -/
def Issued (env : Env) (n : Nat) (u : String) : Prop := ∃ i, i < n ∧ u = env.uuid i

/-- The plug-in and the database agree. The names are looked at for some families of ports. -/
structure Tidy (env : Env) (F : Family → Prop) (b : Books) : Prop where
  rows : ∀ row ∈ b.ports, Issued env b.issued row.uuid ∧ Issued env b.issued row.bridge ∧
    b.switchId row.switch = bridgeName row.switch
  distinct : ∀ row ∈ b.ports, ∀ row' ∈ b.ports, row.uuid = row'.uuid → row = row'
  bridges : ∀ (d : Nat) u, b.switchUuid[d]? = some u → Issued env b.issued u ∧ b.switchId d = bridgeName d ∧
    ∀ row ∈ b.ports, row.bridge = u ↔ row.switch = d
  column : ∀ (d : Nat) u, b.switchUuid[d]? = some u →
    ∃ column, b.columns u = some column ∧ ∀ x, x ∈ column ↔ x ∈ b.bridgePorts d
  columns : ∀ u, b.columns u ≠ none → ∃ d : Nat, b.switchUuid[d]? = some u
  single : ∀ (d d' : Nat) u, b.switchUuid[d]? = some u → b.switchUuid[d']? = some u → d = d'
  zero : b.switchId 0 = ""
  lists : ∀ key, ∀ u ∈ b.uuids key, ∃ row ∈ b.ports, row.uuid = u ∧ row.key = key
  nodup : ∀ key, (b.uuids key).Nodup
  unique : ∀ row ∈ b.ports, ∀ row' ∈ b.ports, b.Live row → b.Live row' → row.name = row'.name → row = row'
  linkNames : ∀ row ∈ b.ports, row.purpose = .vlink → row.name ≠ ""
  aligned : ∀ key, F key.1 → List.Forall₂ (Describes b.ports key) (b.names key) (b.uuids key)

variable {env : Env} {F : Family → Prop} {b : Books}

theorem bridgeName_ne_empty (d : Nat) : bridgeName d ≠ "" := by
  simp [bridgeName]

theorem bridgeName_injective : Function.Injective bridgeName := by
  intro d d' h
  simpa [bridgeName, Nat.repr_inj] using h

theorem Issued.mono {n m : Nat} {u : String} (h : Issued env n u) (hle : n ≤ m) : Issued env m u := by
  obtain ⟨i, hi, hu⟩ := h
  exact ⟨i, by omega, hu⟩

theorem Issued.ne_next {n : Nat} {u : String} (h : Issued env n u) : u ≠ env.uuid (n + 1) := by
  obtain ⟨i, hi, rfl⟩ := h
  intro heq
  have := env.uuid_injective heq
  omega

theorem Issued.next (env : Env) (n : Nat) : Issued env (n + 2) (env.uuid (n + 1)) :=
  ⟨n + 1, by omega, rfl⟩

namespace Tidy

theorem initial : Tidy env F (State.books {}) where
  rows := nofun
  distinct := nofun
  bridges d u h := by simp [State.books] at h
  column d u h := by simp [State.books] at h
  columns u h := absurd rfl h
  single d d' u h := by simp [State.books] at h
  zero := rfl
  lists := nofun
  nodup _ := List.nodup_nil
  unique := nofun
  linkNames := nofun
  aligned _ _ := .nil

/-- A bridge without a name has no column. -/
theorem columns_empty (h : Tidy env F b) : b.columns "" = none := by
  by_contra hne
  obtain ⟨d, hd⟩ := h.columns "" hne
  obtain ⟨i, -, hi⟩ := (h.bridges d "" hd).1
  exact env.uuid_ne_empty i hi.symm

variable {d : Nat} {row : PortRow} {u : String} {f : Family} {names uuids : List String}

/-- The lists of a switch that never was are empty. -/
theorem uuids_eq_nil (h : Tidy env F b) (hd : b.switchId d = "") (f : Family) :
    b.uuids (f, d) = [] := by
  by_contra hne
  obtain ⟨u, hu⟩ := List.exists_mem_of_ne_nil _ hne
  obtain ⟨row, hrow, -, hkey⟩ := h.lists (f, d) u hu
  have hswitch : row.switch = d := congrArg Prod.snd hkey
  have hname := (h.rows row hrow).2.2
  rw [hswitch, hd] at hname
  exact bridgeName_ne_empty d hname.symm

/-- The ports that are there are the ones in the lists of a switch that is there. -/
theorem live_iff (h : Tidy env F b) (hrow : row ∈ b.ports) :
    b.Live row ↔ b.On row.switch ∧ row.uuid ∈ b.uuids row.key := by
  constructor
  · rintro ⟨column, hcolumn, hmem⟩
    obtain ⟨d, hd⟩ := h.columns row.bridge (by simp [hcolumn])
    obtain rfl := ((h.bridges d _ hd).2.2 row hrow).mp rfl
    obtain ⟨column', hcolumn', hports⟩ := h.column _ _ hd
    obtain rfl : column = column' := Option.mem_unique hcolumn hcolumn'
    obtain ⟨f, hf⟩ := Books.mem_bridgePorts.mp ((hports _).mp hmem)
    obtain ⟨row', hrow', huuid, hkey⟩ := h.lists _ _ hf
    obtain rfl := h.distinct row' hrow' row hrow huuid
    exact ⟨⟨_, hd⟩, by rw [hkey]; exact hf⟩
  · rintro ⟨⟨u, hu⟩, hmem⟩
    obtain ⟨column, hcolumn, hports⟩ := h.column _ _ hu
    refine ⟨column, ?_, (hports _).mpr (Books.mem_bridgePorts.mpr ⟨row.purpose.family, hmem⟩)⟩
    rw [((h.bridges _ _ hu).2.2 row hrow).mpr rfl]
    exact hcolumn

/-- Names change in families that are not looked at. -/
theorem setNames (h : Tidy env F b) (names : Family × Nat → List String)
    (hnames : ∀ key, F key.1 → names key = b.names key) : Tidy env F { b with names := names } where
  rows := h.rows
  distinct := h.distinct
  bridges := h.bridges
  column := h.column
  columns := h.columns
  single := h.single
  zero := h.zero
  lists := h.lists
  nodup := h.nodup
  unique := h.unique
  linkNames := h.linkNames
  aligned key hF := by
    have haligned := h.aligned key hF
    rwa [← hnames key hF] at haligned

/-- A name more than there are ports, in a family that is not looked at. -/
theorem pushName (h : Tidy env F b) (key : Family × Nat) (hkey : ¬F key.1) (name : String) :
    Tidy env F (b.pushName key name) := by
  refine h.setNames _ fun key' hF => Paired.push_of_ne _ _ ?_
  rintro rfl
  exact hkey hF

/-- The uuid of the next row is in no list yet. -/
theorem next_notMem (h : Tidy env F b) (key : Family × Nat) : env.uuid (b.issued + 1) ∉ b.uuids key := by
  intro hmem
  obtain ⟨row, hrow, huuid, -⟩ := h.lists key _ hmem
  exact (h.rows row hrow).1.ne_next huuid

private theorem getElem?_insert {m : Std.ExtTreeMap Nat String compare} {d' : Nat} :
    (m.insert d u)[d']? = if d = d' then some u else m[d']? := by
  simp only [Std.ExtTreeMap.getElem?_insert, Std.LawfulEqCmp.compare_eq_iff_eq]

variable (h : Tidy env F b)

include h

theorem addBridge (hd : b.switchId d = "") (hzero : d ≠ 0) :
    Tidy env F (b.addBridge env d) := by
  have hle : b.issued ≤ (b.addBridge env d).issued := Nat.le_add_right _ 2
  have hrow_ne : ∀ row ∈ b.ports, row.switch ≠ d := by
    rintro row hrow rfl
    have hname := (h.rows row hrow).2.2
    rw [hd] at hname
    exact bridgeName_ne_empty _ hname.symm
  -- the new bridge is one, the others are the old ones
  have hcases : ∀ d' u, (b.addBridge env d).switchUuid[d']? = some u →
      d' = d ∧ u = env.uuid (b.issued + 1) ∨ d' ≠ d ∧ b.switchUuid[d']? = some u := by
    intro d' u hu
    have hu' := getElem?_insert.symm.trans hu
    split_ifs at hu' with heq
    · exact .inl ⟨heq.symm, (Option.some.inj hu').symm⟩
    · exact .inr ⟨Ne.symm heq, hu'⟩
  refine ⟨?_, h.distinct, ?_, ?_, ?_, ?_, ?_, h.lists, h.nodup, ?_, h.linkNames, h.aligned⟩
  · intro row hrow
    obtain ⟨huuid, hbridge, hname⟩ := h.rows row hrow
    exact ⟨huuid.mono hle, hbridge.mono hle, (update_of_ne (hrow_ne row hrow) _ _).trans hname⟩
  · intro d' u hu
    rcases hcases d' u hu with ⟨rfl, rfl⟩ | ⟨hne, hu⟩
    · refine ⟨Issued.next env _, update_self .., fun row hrow => ?_⟩
      exact iff_of_false (h.rows row hrow).2.1.ne_next (hrow_ne row hrow)
    · obtain ⟨hissued, hname, hrows⟩ := h.bridges d' u hu
      exact ⟨hissued.mono hle, (update_of_ne hne _ _).trans hname, hrows⟩
  · intro d' u hu
    rcases hcases d' u hu with ⟨rfl, rfl⟩ | ⟨-, hu⟩
    · refine ⟨[], update_self .., fun x => ?_⟩
      have hempty : (b.addBridge env d').bridgePorts d' = [] := by
        show b.uuids _ ++ b.uuids _ ++ b.uuids _ = []
        rw [h.uuids_eq_nil hd, h.uuids_eq_nil hd, h.uuids_eq_nil hd]
        rfl
      rw [hempty]
    · obtain ⟨column, hcolumn, hports⟩ := h.column d' u hu
      have hne : u ≠ env.uuid (b.issued + 1) := (h.bridges d' u hu).1.ne_next
      exact ⟨column, (update_of_ne hne _ _).trans hcolumn, hports⟩
  · intro u hu
    by_cases hnew : u = env.uuid (b.issued + 1)
    · exact ⟨d, by rw [hnew]; exact getElem?_insert.trans (if_pos rfl)⟩
    · have hold : b.columns u ≠ none := fun hnone =>
        hu ((update_of_ne hnew _ _).trans hnone)
      obtain ⟨d', hd'⟩ := h.columns u hold
      have hne : d ≠ d' := by
        rintro rfl
        have hname := (h.bridges _ u hd').2.1
        rw [hd] at hname
        exact bridgeName_ne_empty _ hname.symm
      exact ⟨d', getElem?_insert.trans ((if_neg hne).trans hd')⟩
  · intro d' d'' u hu hu'
    rcases hcases d' u hu with ⟨rfl, rfl⟩ | ⟨-, hold⟩ <;>
      rcases hcases d'' _ hu' with ⟨rfl, hnew⟩ | ⟨-, hold'⟩
    · rfl
    · exact absurd rfl (h.bridges d'' _ hold').1.ne_next
    · exact absurd hnew (h.bridges d' _ hold).1.ne_next
    · exact h.single d' d'' u hold hold'
  · exact (update_of_ne hzero.symm _ _).trans h.zero
  · have hlive : ∀ row ∈ b.ports, (b.addBridge env d).Live row → b.Live row := by
      rintro row hrow ⟨column, hcolumn, hmem⟩
      have hne : row.bridge ≠ env.uuid (b.issued + 1) := (h.rows row hrow).2.1.ne_next
      exact ⟨column, (update_of_ne hne _ _).symm.trans hcolumn, hmem⟩
    intro row hrow row' hrow' hl hl'
    exact h.unique row hrow row' hrow' (hlive row hrow hl) (hlive row' hrow' hl')

/-- A new port. -/
theorem place {spec : PortSpec} (hu : b.switchUuid[spec.switch]? = some u)
    (hfree : ∀ row ∈ b.ports, b.Live row → row.name ≠ spec.name)
    (hlink : spec.purpose = .vlink → spec.name ≠ "") : Tidy env F (b.place env u spec) := by
  have hle : b.issued ≤ (b.place env u spec).issued := Nat.le_add_right _ 2
  have hmem : ∀ row, row ∈ (b.place env u spec).ports → row ∈ b.ports ∨ row = b.newRow env u spec := by
    intro row hrow
    exact (List.mem_append.mp hrow).imp_right List.mem_singleton.mp
  have hold : ∀ row ∈ b.ports, row ∈ (b.place env u spec).ports := fun row =>
    List.mem_append_left _
  have hnew : b.newRow env u spec ∈ (b.place env u spec).ports :=
    List.mem_append_right _ List.mem_cons_self
  have hports : ∀ d x, x ∈ (b.place env u spec).bridgePorts d ↔
      x ∈ b.bridgePorts d ∨ d = spec.switch ∧ x = env.uuid (b.issued + 1) := by
    intro d x
    rw [Books.mem_bridgePorts, Books.mem_bridgePorts]
    show (∃ f, x ∈ Paired.push b.uuids spec.key _ (f, d)) ↔ _
    simp only [Paired.mem_push, exists_or]
    refine or_congr Iff.rfl ⟨?_, ?_⟩
    · rintro ⟨f, hkey, hx⟩
      exact ⟨congrArg Prod.snd hkey, hx⟩
    · rintro ⟨rfl, hx⟩
      exact ⟨spec.purpose.family, rfl, hx⟩
  obtain ⟨hissued, hname, hrows⟩ := h.bridges _ _ hu
  refine ⟨?_, ?_, ?_, ?_, ?_, h.single, h.zero, ?_, ?_, ?_, ?_, ?_⟩
  · intro row hrow
    rcases hmem row hrow with hrow | rfl
    · obtain ⟨huuid, hbridge, hswitch⟩ := h.rows row hrow
      exact ⟨huuid.mono hle, hbridge.mono hle, hswitch⟩
    · exact ⟨Issued.next env _, hissued.mono hle, hname⟩
  · intro row hrow row' hrow' heq
    rcases hmem row hrow with hrow | rfl <;> rcases hmem row' hrow' with hrow' | rfl
    · exact h.distinct row hrow row' hrow' heq
    · exact absurd heq (h.rows row hrow).1.ne_next
    · exact absurd heq.symm (h.rows row' hrow').1.ne_next
    · rfl
  · intro d u' hu'
    obtain ⟨hissued', hname', hrows'⟩ := h.bridges d u' hu'
    refine ⟨hissued'.mono hle, hname', fun row hrow => ?_⟩
    rcases hmem row hrow with hrow | rfl
    · exact hrows' row hrow
    · constructor
      · rintro rfl
        exact h.single _ _ _ hu hu'
      · rintro rfl
        exact Option.mem_unique hu hu'
  · intro d u' hu'
    by_cases heq : u' = u
    · subst heq
      obtain rfl := h.single _ _ _ hu hu'
      refine ⟨_, update_self .., fun x => ?_⟩
      rw [hports, List.mem_append, List.mem_singleton]
      simp
    · obtain ⟨column, hcolumn, hx⟩ := h.column d u' hu'
      refine ⟨column, (update_of_ne heq _ _).trans hcolumn, fun x => ?_⟩
      have hne : d ≠ spec.switch := by
        rintro rfl
        exact heq (Option.mem_unique hu' hu)
      rw [hports, hx]
      simp [hne]
  · intro u' hu'
    by_cases heq : u' = u
    · exact ⟨spec.switch, heq ▸ hu⟩
    · exact h.columns u' fun hnone => hu' ((update_of_ne heq _ _).trans hnone)
  · intro key x hx
    rcases Paired.mem_push.mp hx with hx | ⟨rfl, rfl⟩
    · obtain ⟨row, hrow, huuid, hkey⟩ := h.lists key x hx
      exact ⟨row, hold row hrow, huuid, hkey⟩
    · exact ⟨_, hnew, rfl, rfl⟩
  · intro key
    exact Paired.nodup_push key (h.nodup key) (h.next_notMem key)
  · have hlive : ∀ row ∈ b.ports, (b.place env u spec).Live row → b.Live row := by
      rintro row hrow ⟨column, hcolumn, hx⟩
      by_cases heq : row.bridge = u
      · obtain ⟨column', hcolumn', hports'⟩ := h.column _ _ hu
        refine ⟨column', heq ▸ hcolumn', ?_⟩
        rw [heq, Books.columns_place_self, Option.some.injEq] at hcolumn
        subst hcolumn
        rcases List.mem_append.mp hx with hx | hx
        · exact (hports' _).mpr hx
        · exact absurd (List.mem_singleton.mp hx) (h.rows row hrow).1.ne_next
      · exact ⟨column, (update_of_ne heq _ _).symm.trans hcolumn, hx⟩
    intro row hrow row' hrow' hl hl' hname
    rcases hmem row hrow with hrow | rfl <;> rcases hmem row' hrow' with hrow' | rfl
    · exact h.unique row hrow row' hrow' (hlive row hrow hl) (hlive row' hrow' hl') hname
    · exact absurd hname (hfree row hrow (hlive row hrow hl))
    · exact absurd hname.symm (hfree row' hrow' (hlive row' hrow' hl'))
    · rfl
  · intro row hrow hvlink
    rcases hmem row hrow with hrow | rfl
    · exact h.linkNames row hrow hvlink
    · exact hlink hvlink
  · intro key hF
    have hsame : List.Forall₂ (Describes (b.place env u spec).ports key) (b.names key) (b.uuids key) := by
      refine (h.aligned key hF).imp ?_
      rintro name x ⟨row, hrow, hdescribes⟩
      exact ⟨row, hold row hrow, hdescribes⟩
    refine Paired.forall₂_push hsame ?_
    rintro rfl
    exact ⟨_, hnew, rfl, rfl, rfl⟩

/-- Ports of a switch are taken out of the lists, and the column is written. -/
theorem setLists (hu : b.switchUuid[d]? = some u)
    (hsub : uuids.Sublist (b.uuids (f, d)))
    (haligned : F f → List.Forall₂ (Describes b.ports (f, d)) names uuids) :
    Tidy env F ((b.setLists (f, d) names uuids).writePorts u d) := by
  have huuids : ∀ key, (update b.uuids (f, d) uuids key).Sublist (b.uuids key) := by
    intro key
    by_cases hkey : key = (f, d)
    · subst hkey
      rwa [update_self]
    · rw [update_of_ne hkey]
  refine ⟨h.rows, h.distinct, h.bridges, ?_, ?_, h.single, h.zero, ?_, ?_, ?_, h.linkNames, ?_⟩
  · intro d' u' hu'
    by_cases heq : u' = u
    · subst heq
      obtain rfl := h.single _ _ _ hu hu'
      exact ⟨_, update_self .., fun x => Iff.rfl⟩
    · obtain ⟨column, hcolumn, hx⟩ := h.column d' u' hu'
      refine ⟨column, (update_of_ne heq _ _).trans hcolumn, fun x => ?_⟩
      have hne : ∀ f', (f', d') ≠ (f, d) := by
        intro f' hkey
        obtain ⟨-, rfl⟩ := Prod.mk.inj hkey
        exact heq (Option.mem_unique hu' hu)
      rw [hx, Books.mem_bridgePorts, Books.mem_bridgePorts]
      show _ ↔ ∃ f', x ∈ update b.uuids (f, d) uuids (f', d')
      simp only [update_of_ne (hne _)]
  · intro u' hu'
    by_cases heq : u' = u
    · exact ⟨d, heq ▸ hu⟩
    · exact h.columns u' fun hnone => hu' ((update_of_ne heq _ _).trans hnone)
  · intro key x hx
    exact h.lists key x ((huuids key).subset hx)
  · intro key
    exact (h.nodup key).sublist (huuids key)
  · have hlive : ∀ row, ((b.setLists (f, d) names uuids).writePorts u d).Live row → b.Live row := by
      rintro row ⟨column, hcolumn, hx⟩
      by_cases heq : row.bridge = u
      · obtain ⟨column', hcolumn', hports⟩ := h.column _ _ hu
        refine ⟨column', heq ▸ hcolumn', (hports _).mpr ?_⟩
        rw [heq, Books.columns_writePorts_self, Option.some.injEq] at hcolumn
        subst hcolumn
        obtain ⟨f', hf'⟩ := Books.mem_bridgePorts.mp hx
        exact Books.mem_bridgePorts.mpr ⟨f', (huuids (f', d)).subset hf'⟩
      · exact ⟨column, (update_of_ne heq _ _).symm.trans hcolumn, hx⟩
    intro row hrow row' hrow' hl hl'
    exact h.unique row hrow row' hrow' (hlive row hl) (hlive row' hl')
  · intro key hF
    show List.Forall₂ _ (update b.names (f, d) names key)
      (update b.uuids (f, d) uuids key)
    by_cases hkey : key = (f, d)
    · subst hkey
      rw [update_self, update_self]
      exact haligned hF
    · rw [update_of_ne hkey, update_of_ne hkey]
      exact h.aligned key hF

/-- The ports that are left on the switch. -/
theorem live_setLists (hu : b.switchUuid[d]? = some u)
    (hsub : uuids.Sublist (b.uuids (f, d)))
    (haligned : F f → List.Forall₂ (Describes b.ports (f, d)) names uuids) (hrow : row ∈ b.ports) :
    ((b.setLists (f, d) names uuids).writePorts u d).Live row ↔
      b.Live row ∧ (row.key = (f, d) → row.uuid ∈ uuids) := by
  rw [(h.setLists hu hsub haligned).live_iff hrow, h.live_iff hrow, and_assoc]
  refine and_congr_right fun _ => ?_
  show row.uuid ∈ update b.uuids (f, d) uuids row.key ↔ _
  by_cases hkey : row.key = (f, d)
  · rw [hkey, update_self]
    simpa using fun hmem => hsub.subset hmem
  · rw [update_of_ne hkey]
    simp [hkey]

/-- One port is gone. -/
theorem live_without {x : String} (hu : b.switchUuid[d]? = some u) (hgone : x ∈ b.uuids (f, d))
    (haligned : F f → List.Forall₂ (Describes b.ports (f, d)) names ((b.uuids (f, d)).filter (· ≠ x)))
    (hrow : row ∈ b.ports) :
    ((b.setLists (f, d) names ((b.uuids (f, d)).filter (· ≠ x))).writePorts u d).Live row ↔
      b.Live row ∧ row.uuid ≠ x := by
  rw [h.live_setLists hu List.filter_sublist haligned hrow]
  refine and_congr_right fun hlive => ?_
  simp only [List.mem_filter, decide_eq_true_eq]
  refine ⟨fun hkept heq => ?_, fun hne hkey => ⟨hkey ▸ ((h.live_iff hrow).mp hlive).2, hne⟩⟩
  obtain ⟨row', hrow', huuid, hkey⟩ := h.lists _ _ hgone
  obtain rfl := h.distinct row' hrow' row hrow (huuid.trans heq.symm)
  exact (hkept hkey).2 heq

/-- The column is written again. -/
theorem writePorts (hu : b.switchUuid[d]? = some u) :
    Tidy env F (b.writePorts u d) := by
  have hsame := h.setLists (f := .port) hu (List.Sublist.refl _) fun hF => h.aligned _ hF
  rwa [Books.setLists_self] at hsame

/-- A switch goes away. -/
theorem forget (d : Nat) : Tidy env F (b.forget d) := by
  have hswitch : ∀ (d' : Nat) u, (b.forget d).switchUuid[d']? = some u ↔
      d' ≠ d ∧ b.switchUuid[d']? = some u := by
    intro d' u
    show (b.switchUuid.erase d)[d']? = some u ↔ _
    simp only [Std.ExtTreeMap.getElem?_erase, Std.LawfulEqCmp.compare_eq_iff_eq]
    by_cases hd : d = d'
    · simp [hd]
    · simp [hd, Ne.symm hd]
  have hkept : ∀ u, u ∈ (b.switchUuid.erase d).toList.map Prod.snd ↔
      ∃ d' : Nat, d' ≠ d ∧ b.switchUuid[d']? = some u := by
    intro u
    simp only [List.mem_map, Prod.exists, exists_eq_right, Std.ExtTreeMap.mem_toList_iff_getElem?_eq_some]
    exact exists_congr fun d' => hswitch d' u
  have hlists := b.lists_forget d
  refine ⟨h.rows, h.distinct, ?_, ?_, ?_, ?_, h.zero, ?_, ?_, ?_, h.linkNames, ?_⟩
  · intro d' u hu
    exact h.bridges d' u ((hswitch d' u).mp hu).2
  · intro d' u hu
    obtain ⟨hne, hold⟩ := (hswitch d' u).mp hu
    obtain ⟨column, hcolumn, hports⟩ := h.column d' u hold
    refine ⟨column, (if_pos ((hkept u).mpr ⟨d', hne, hold⟩)).trans hcolumn, fun x => ?_⟩
    rw [hports, Books.mem_bridgePorts, Books.mem_bridgePorts]
    refine exists_congr fun f => ?_
    rcases hlists (f, d') with hsame | hgone
    · rw [hsame.1]
    · exact absurd hgone.1 hne
  · intro u hu
    by_cases hmem : u ∈ (b.switchUuid.erase d).toList.map Prod.snd
    · obtain ⟨d', hne, hold⟩ := (hkept u).mp hmem
      exact ⟨d', (hswitch d' u).mpr ⟨hne, hold⟩⟩
    · exact absurd (if_neg hmem) hu
  · intro d' d'' u hu hu'
    exact h.single d' d'' u ((hswitch d' u).mp hu).2 ((hswitch d'' u).mp hu').2
  · intro key x hx
    rcases hlists key with hsame | hgone
    · exact h.lists key x (hsame.1 ▸ hx)
    · rw [hgone.2.1] at hx
      cases hx
  · intro key
    rcases hlists key with hsame | hgone
    · rw [hsame.1]
      exact h.nodup key
    · rw [hgone.2.1]
      exact List.nodup_nil
  · have hlive : ∀ row, (b.forget d).Live row → b.Live row := by
      rintro row ⟨column, hcolumn, hx⟩
      refine ⟨column, ?_, hx⟩
      by_cases hmem : row.bridge ∈ (b.switchUuid.erase d).toList.map Prod.snd
      · exact (if_pos hmem).symm.trans hcolumn
      · exact absurd ((if_neg hmem).symm.trans hcolumn) nofun
    intro row hrow row' hrow' hl hl'
    exact h.unique row hrow row' hrow' (hlive row hl) (hlive row' hl')
  · intro key hF
    rcases hlists key with hsame | hgone
    · rw [hsame.1, hsame.2]
      exact h.aligned key hF
    · rw [hgone.2.1, hgone.2.2]
      exact .nil

/-- The ports of the other switches are left. -/
theorem live_forget (hrow : row ∈ b.ports) :
    (b.forget d).Live row ↔ b.Live row ∧ row.switch ≠ d := by
  rw [(h.forget d).live_iff hrow, h.live_iff hrow]
  have hon : (b.forget d).On row.switch ↔ b.On row.switch ∧ row.switch ≠ d := by
    show (∃ u, (b.switchUuid.erase d)[row.switch]? = some u) ↔ _
    simp only [Std.ExtTreeMap.getElem?_erase, Std.LawfulEqCmp.compare_eq_iff_eq]
    by_cases hd : d = row.switch
    · simp [hd]
    · simp [hd, Ne.symm hd, Books.On]
  rw [hon]
  rcases b.lists_forget d row.key with hsame | hgone
  · rw [hsame.1, and_right_comm]
  · have hd : row.switch = d := hgone.1
    simp [hd]

end Tidy

end UnOrchestrator.Ovsdb
