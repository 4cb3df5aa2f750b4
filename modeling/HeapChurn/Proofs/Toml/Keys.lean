import HeapChurn.Toml.Document
import Mathlib.Data.List.Basic
import Mathlib.Data.List.Nodup

/-!
# The keys of a document

While a document grows no table of it comes to have a key twice (`keyed_grow`). A key that is not
there is put at the end of its table, and the table under a key is changed in its place. What needs
care are sections: a table is put under its key when its section is closed, long after that key was
looked for, and the way to it has to be found again. `within_eq_some` says where a path leads before
and after a change, and `Growth.Orderly` that the key of the section is still missing there.
-/

namespace HeapChurn

namespace Toml

/-- No key comes twice. -/
def Distinct {α : Type} (entries : List (String × α)) : Prop := (entries.map Prod.fst).Nodup

instance {α : Type} (entries : List (String × α)) : Decidable (Distinct entries) :=
  inferInstanceAs (Decidable (entries.map Prod.fst).Nodup)

section Distinct

variable {α : Type} {entries : List (String × α)} {key : String}

theorem notMem_keys (h : entries.lookup key = none) : key ∉ entries.map Prod.fst := by
  intro hmem
  obtain ⟨entry, hentry, rfl⟩ := List.mem_map.mp hmem
  simpa using List.lookup_eq_none_iff.mp h entry hentry

theorem lookup_eq_none (h : key ∉ entries.map Prod.fst) : entries.lookup key = none := by
  refine List.lookup_eq_none_iff.mpr fun entry hentry => ?_
  have hne : key ≠ entry.1 := fun heq => h (heq ▸ List.mem_map_of_mem hentry)
  simpa using hne

theorem lookup_concat (h : entries.lookup key = none) (x : α) :
    (entries ++ [(key, x)]).lookup key = some x := by
  rw [List.lookup_append, h, Option.none_or, List.lookup_cons_self]

theorem mem_of_lookup {x : α} (h : entries.lookup key = some x) : (key, x) ∈ entries := by
  obtain ⟨before, after, rfl, -⟩ := List.lookup_eq_some_iff.mp h
  simp

theorem Distinct.lookup : ∀ {entries : List (String × α)} {x : α}, Distinct entries →
    (key, x) ∈ entries → entries.lookup key = some x
  | [], _, _, hmem => absurd hmem List.not_mem_nil
  | (k, y) :: rest, x, h, hmem => by
      obtain ⟨hk, hrest⟩ := List.nodup_cons.mp h
      rcases List.mem_cons.mp hmem with heq | hmem
      · obtain ⟨rfl, rfl⟩ := Prod.mk.inj heq
        exact List.lookup_cons_self
      · have hne : key ≠ k := fun heq => hk (List.mem_map.mpr ⟨(key, x), hmem, heq⟩)
        rw [List.lookup_cons, beq_false_of_ne hne]
        exact Distinct.lookup hrest hmem

theorem Distinct.concat (h : Distinct entries) (hkey : key ∉ entries.map Prod.fst) (x : α) :
    Distinct (entries ++ [(key, x)]) := by
  unfold Distinct
  rw [List.map_append, List.nodup_append]
  refine ⟨h, List.nodup_singleton _, ?_⟩
  rintro k hk _ hnew rfl
  obtain rfl : k = key := List.mem_singleton.mp hnew
  exact hkey hk

end Distinct

/-- No table in the value has a key twice. -/
inductive Value.Keyed : Value → Prop
  | atom {v : Value} (hitems : ∀ items, v ≠ .array items) (hentries : ∀ entries, v ≠ .table entries) :
      Keyed v
  | array {items : List Value} (h : ∀ v ∈ items, Keyed v) : Keyed (.array items)
  | table {entries : Table} (hkeys : Distinct entries) (h : ∀ entry ∈ entries, Keyed entry.2) :
      Keyed (.table entries)

theorem Value.Keyed.distinct {entries : Table} (h : (Value.table entries).Keyed) :
    Distinct entries := by
  cases h with
  | atom _ hentries => exact absurd rfl (hentries entries)
  | table hkeys _ => exact hkeys

theorem Value.Keyed.of_lookup {entries : Table} {key : String} {v : Value}
    (h : (Value.table entries).Keyed) (hlookup : entries.lookup key = some v) : v.Keyed := by
  cases h with
  | atom _ hentries => exact absurd rfl (hentries entries)
  | table _ h => exact h _ (mem_of_lookup hlookup)

theorem Value.Keyed.of_mem {items : List Value} (h : (Value.array items).Keyed) :
    ∀ v ∈ items, v.Keyed := by
  cases h with
  | atom hitems _ => exact absurd rfl (hitems items)
  | array h => exact h

/-- No table in the node has a key twice. -/
inductive Node.Keyed : Node → Prop
  | value {v : Value} (h : v.Keyed) : Keyed (.value v)
  | table {origin : Origin} {entries : Entries} (hkeys : Distinct entries)
      (h : ∀ entry ∈ entries, Keyed entry.2) : Keyed (.table origin entries)
  | tables {elements : List Entries} (hkeys : ∀ entries ∈ elements, Distinct entries)
      (h : ∀ entries ∈ elements, ∀ entry ∈ entries, Keyed entry.2) : Keyed (.tables elements)

namespace Entries

/-- Neither these entries nor any table in them have a key twice. -/
structure Keyed (entries : Entries) : Prop where
  distinct : Distinct entries
  node : ∀ entry ∈ entries, entry.2.Keyed

variable {key : String} {entries out : Entries} {node : Node}

theorem keyed_table_iff {origin : Origin} : (Node.table origin entries).Keyed ↔ entries.Keyed := by
  constructor
  · intro h
    cases h with
    | table hkeys hnodes => exact ⟨hkeys, hnodes⟩
  · exact fun h => .table h.distinct h.node

theorem keyed_tables_iff {elements : List Entries} :
    (Node.tables elements).Keyed ↔ ∀ entries ∈ elements, Keyed entries := by
  constructor
  · intro h
    cases h with
    | tables hkeys hnodes => exact fun entries hmem => ⟨hkeys entries hmem, hnodes entries hmem⟩
  · exact fun h => .tables (fun entries hmem => (h entries hmem).distinct)
      fun entries hmem => (h entries hmem).node

/-- An array of tables with another one at its end. -/
theorem keyed_tables_concat {elements : List Entries} (h : ∀ entries ∈ elements, Keyed entries)
    (hout : out.Keyed) : (Node.tables (elements ++ [out])).Keyed :=
  keyed_tables_iff.mpr fun entries hmem => by
    rcases List.mem_append.mp hmem with hold | hnew
    · exact h entries hold
    · exact List.mem_singleton.mp hnew ▸ hout

theorem keyed_nil : Keyed [] := ⟨List.nodup_nil, nofun⟩

theorem Keyed.lookup (h : entries.Keyed) (hlookup : entries.lookup key = some node) : node.Keyed :=
  h.node (key, node) (mem_of_lookup hlookup)

theorem Keyed.concat (h : entries.Keyed) (hkey : key ∉ entries.map Prod.fst) (hnode : node.Keyed) :
    Keyed (entries ++ [(key, node)]) := by
  refine ⟨h.distinct.concat hkey node, fun entry hentry => ?_⟩
  rcases List.mem_append.mp hentry with hold | hnew
  · exact h.node entry hold
  · obtain rfl := List.mem_singleton.mp hnew
    exact hnode

theorem keys_replace (key : String) (node : Node) : ∀ entries : Entries,
    (entries.replace key node).map Prod.fst = entries.map Prod.fst
  | [] => rfl
  | (k, n) :: rest => by
      have ih := keys_replace key node rest
      unfold replace
      split
      · rfl
      · exact congrArg (k :: ·) ih

theorem mem_replace {entry : String × Node} : ∀ {entries : Entries},
    entry ∈ entries.replace key node → entry ∈ entries ∨ entry.2 = node
  | [], h => absurd h List.not_mem_nil
  | (k, n) :: rest, h => by
      unfold replace at h
      split at h
      · rcases List.mem_cons.mp h with rfl | hrest
        · exact .inr rfl
        · exact .inl (List.mem_cons_of_mem _ hrest)
      · rcases List.mem_cons.mp h with rfl | hrest
        · exact .inl List.mem_cons_self
        · exact (mem_replace hrest).imp_left (List.mem_cons_of_mem _)

theorem Keyed.replace (h : entries.Keyed) (key : String) (hnode : node.Keyed) :
    Keyed (entries.replace key node) := by
  refine ⟨?_, fun entry hentry => ?_⟩
  · unfold Distinct
    rw [keys_replace]
    exact h.distinct
  · rcases mem_replace hentry with hold | hnew
    · exact h.node entry hold
    · exact hnew ▸ hnode

theorem lookup_replace : ∀ {entries : Entries} {old : Node}, entries.lookup key = some old →
    (entries.replace key node).lookup key = some node
  | [], _, h => by cases h
  | (k, n) :: rest, old, h => by
      unfold Entries.replace
      by_cases hk : k = key
      · rw [if_pos hk, hk, List.lookup_cons_self]
      · have hne : (key == k) = false := beq_false_of_ne fun heq => hk heq.symm
        rw [List.lookup_cons, hne] at h
        rw [if_neg hk, List.lookup_cons, hne]
        exact lookup_replace h

theorem Keyed.erase (h : entries.Keyed) (key : String) : Keyed (entries.erase key) :=
  ⟨List.Nodup.sublist (List.Sublist.map _ List.filter_sublist) h.distinct,
    fun entry hentry => h.node entry (List.mem_filter.mp hentry).1⟩

theorem notMem_keys_erase (key : String) (entries : Entries) :
    key ∉ (entries.erase key).map Prod.fst := by
  intro hmem
  obtain ⟨entry, hentry, hkey⟩ := List.mem_map.mp hmem
  simpa [hkey] using (List.mem_filter.mp hentry).2

/-! ## Paths -/

/-- The path leads from a table to this one. Where there is no table it leads to an empty one. -/
inductive Leads : List String → Entries → Entries → Prop
  | here {entries : Entries} : Leads [] entries entries
  | missing {key : String} {path : List String} {entries goal : Entries}
      (hlookup : entries.lookup key = none) (h : Leads path [] goal) : Leads (key :: path) entries goal
  | table {key : String} {path : List String} {entries inner goal : Entries} {origin : Origin}
      (hlookup : entries.lookup key = some (.table origin inner)) (h : Leads path inner goal) :
      Leads (key :: path) entries goal
  | tables {key : String} {path : List String} {entries last goal : Entries}
      {elements : List Entries} (hlookup : entries.lookup key = some (.tables elements))
      (hlast : elements.getLast? = some last) (h : Leads path last goal) :
      Leads (key :: path) entries goal

theorem Leads.unique {path : List String} {goal other : Entries} (h : Leads path entries goal)
    (hother : Leads path entries other) : goal = other := by
  induction h with
  | here => cases hother; rfl
  | missing hlookup h ih =>
      cases hother with
      | missing _ hother => exact ih hother
      | table hlookup' => rw [hlookup] at hlookup'; cases hlookup'
      | tables hlookup' => rw [hlookup] at hlookup'; cases hlookup'
  | table hlookup h ih =>
      cases hother with
      | missing hlookup' => rw [hlookup] at hlookup'; cases hlookup'
      | table hlookup' hother =>
          rw [hlookup] at hlookup'
          cases hlookup'
          exact ih hother
      | tables hlookup' => rw [hlookup] at hlookup'; cases hlookup'
  | tables hlookup hlast h ih =>
      cases hother with
      | missing hlookup' => rw [hlookup] at hlookup'; cases hlookup'
      | table hlookup' => rw [hlookup] at hlookup'; cases hlookup'
      | tables hlookup' hlast' hother =>
          rw [hlookup] at hlookup'
          cases hlookup'
          rw [hlast] at hlast'
          cases hlast'
          exact ih hother

/-- A change at the end of a path is made to the table to which the path leads, and leads to what has
become of it. -/
theorem within_eq_some {α : Type} {dotted : Bool} {change : Entries → Option (α × Entries)}
    {result : α} : ∀ {path : List String} {entries out : Entries},
    within dotted change path entries = some (result, out) → ∃ goal made,
      change goal = some (result, made) ∧ Leads path entries goal ∧ Leads path out made
        ∧ (entries.Keyed → goal.Keyed ∧ (made.Keyed → out.Keyed))
  | [], entries, out, h => ⟨entries, out, h, .here, .here, fun hkeyed => ⟨hkeyed, id⟩⟩
  | key :: path, entries, out, h => by
      unfold within at h
      split at h
      · -- The way goes on in a new table, which was empty before.
        rename_i hlookup
        obtain ⟨⟨_, inner⟩, hinner, hout⟩ := Option.bind_eq_some_iff.mp h
        obtain ⟨rfl, rfl⟩ := Prod.mk.inj (Option.some.inj hout)
        obtain ⟨goal, made, hchange, hgoal, hmade, hkeep⟩ := within_eq_some hinner
        refine ⟨goal, made, hchange, .missing hlookup hgoal,
          .table (lookup_concat hlookup _) hmade, fun hkeyed => ?_⟩
        obtain ⟨hgoalKeyed, hinnerKeyed⟩ := hkeep keyed_nil
        exact ⟨hgoalKeyed, fun hmadeKeyed => hkeyed.concat (notMem_keys hlookup)
          (keyed_table_iff.mpr (hinnerKeyed hmadeKeyed))⟩
      · cases h
      · -- The way goes on in the last element, which stays the last one.
        rename_i elements hlookup
        split at h
        · cases h
        · obtain ⟨last, hlast, h⟩ := Option.bind_eq_some_iff.mp h
          obtain ⟨⟨_, inner⟩, hinner, hout⟩ := Option.bind_eq_some_iff.mp h
          obtain ⟨rfl, rfl⟩ := Prod.mk.inj (Option.some.inj hout)
          obtain ⟨goal, made, hchange, hgoal, hmade, hkeep⟩ := within_eq_some hinner
          refine ⟨goal, made, hchange, .tables hlookup hlast hgoal,
            .tables (lookup_replace hlookup) List.getLast?_concat hmade, fun hkeyed => ?_⟩
          have helements := keyed_tables_iff.mp (hkeyed.lookup hlookup)
          obtain ⟨hgoalKeyed, hinnerKeyed⟩ := hkeep (helements last (List.mem_of_getLast? hlast))
          refine ⟨hgoalKeyed, fun hmadeKeyed => hkeyed.replace key ?_⟩
          exact keyed_tables_concat (fun element hmem =>
            helements element (List.dropLast_subset elements hmem)) (hinnerKeyed hmadeKeyed)
      · rename_i origin inner hlookup
        split at h
        · cases h
        · obtain ⟨⟨_, changed⟩, hinner, hout⟩ := Option.bind_eq_some_iff.mp h
          obtain ⟨rfl, rfl⟩ := Prod.mk.inj (Option.some.inj hout)
          obtain ⟨goal, made, hchange, hgoal, hmade, hkeep⟩ := within_eq_some hinner
          refine ⟨goal, made, hchange, .table hlookup hgoal,
            .table (lookup_replace hlookup) hmade, fun hkeyed => ?_⟩
          obtain ⟨hgoalKeyed, hinnerKeyed⟩ := hkeep (keyed_table_iff.mp (hkeyed.lookup hlookup))
          exact ⟨hgoalKeyed, fun hmadeKeyed => hkeyed.replace key
            (keyed_table_iff.mpr (hinnerKeyed hmadeKeyed))⟩

theorem Keyed.assign {path : List String} {v : Value} (h : entries.Keyed) (hv : v.Keyed)
    (hassign : entries.assign path key v = some out) : out.Keyed := by
  obtain ⟨⟨_, out⟩, hwithin, rfl⟩ := Option.map_eq_some_iff.mp hassign
  obtain ⟨goal, made, hchange, -, -, hkeep⟩ := within_eq_some hwithin
  obtain ⟨hgoal, hout⟩ := hkeep h
  unfold insertNew at hchange
  split at hchange
  · rename_i hlookup
    obtain ⟨-, rfl⟩ := Prod.mk.inj (Option.some.inj hchange)
    exact hout (hgoal.concat (notMem_keys hlookup) (.value hv))
  · cases hchange

end Entries

/-! ## Sections -/

namespace Growth

/-- No key comes twice so far, nor will one when the section is closed: the key of a table that is
being read is missing where its path leads. -/
structure Orderly (g : Growth) : Prop where
  root : g.root.Keyed
  current : g.current.Keyed
  missing : ∀ path key, g.place = .table path key → ∀ goal, Entries.Leads path g.root goal →
    key ∉ goal.map Prod.fst

variable {g g' : Growth}

theorem orderly_start : ({} : Growth).Orderly := ⟨Entries.keyed_nil, Entries.keyed_nil, nofun⟩

theorem Orderly.close (h : g.Orderly) {out : Entries} (hclose : g.close = some out) : out.Keyed := by
  unfold Growth.close at hclose
  split at hclose
  · obtain rfl := Option.some.inj hclose
    exact h.current
  · rename_i path key hplace
    obtain ⟨⟨_, out⟩, hwithin, rfl⟩ := Option.map_eq_some_iff.mp hclose
    obtain ⟨goal, made, hchange, hgoal, -, hkeep⟩ := Entries.within_eq_some hwithin
    obtain ⟨-, rfl⟩ := Prod.mk.inj (Option.some.inj hchange)
    obtain ⟨hgoalKeyed, hout⟩ := hkeep h.root
    exact hout (hgoalKeyed.concat (h.missing path key hplace goal hgoal)
      (Entries.keyed_table_iff.mpr h.current))
  · rename_i path key hplace
    obtain ⟨⟨_, out⟩, hwithin, rfl⟩ := Option.map_eq_some_iff.mp hclose
    obtain ⟨goal, made, hchange, -, -, hkeep⟩ := Entries.within_eq_some hwithin
    obtain ⟨hgoalKeyed, hout⟩ := hkeep h.root
    split at hchange
    · rename_i elements hlookup
      obtain ⟨-, rfl⟩ := Prod.mk.inj (Option.some.inj hchange)
      have helements := Entries.keyed_tables_iff.mp (hgoalKeyed.lookup hlookup)
      exact hout (hgoalKeyed.replace key (Entries.keyed_tables_concat helements h.current))
    · cases hchange

theorem Orderly.assign (h : g.Orderly) {path : List String} {key : String} {v : Value}
    (hv : v.Keyed) (hassign : g.assign path key v = some g') : g'.Orderly := by
  obtain ⟨current, hcurrent, hg'⟩ := Option.bind_eq_some_iff.mp hassign
  obtain rfl := Option.some.inj hg'
  exact ⟨h.root, h.current.assign hv hcurrent, h.missing⟩

theorem Orderly.openTable (h : g.Orderly) {path : List String} {key : String}
    (hopen : g.openTable path key = some g') : g'.Orderly := by
  obtain ⟨closed, hclosed, hopen⟩ := Option.bind_eq_some_iff.mp hopen
  obtain ⟨⟨current, root⟩, hwithin, hg'⟩ := Option.bind_eq_some_iff.mp hopen
  obtain rfl := Option.some.inj hg'
  obtain ⟨goal, made, hchange, -, hmade, hkeep⟩ := Entries.within_eq_some hwithin
  obtain ⟨hgoalKeyed, hroot⟩ := hkeep (h.close hclosed)
  have hopened : Entries.Keyed current ∧ made.Keyed ∧ key ∉ made.map Prod.fst := by
    split at hchange
    · rename_i hlookup
      obtain ⟨rfl, rfl⟩ := Prod.mk.inj (Option.some.inj hchange)
      exact ⟨Entries.keyed_nil, hgoalKeyed, notMem_keys hlookup⟩
    · rename_i inner hlookup
      obtain ⟨rfl, rfl⟩ := Prod.mk.inj (Option.some.inj hchange)
      exact ⟨Entries.keyed_table_iff.mp (hgoalKeyed.lookup hlookup), hgoalKeyed.erase key,
        Entries.notMem_keys_erase key goal⟩
    · cases hchange
  obtain ⟨hcurrent, hmadeKeyed, hmissing⟩ := hopened
  refine ⟨hroot hmadeKeyed, hcurrent, fun path' key' hplace other hother => ?_⟩
  obtain ⟨rfl, rfl⟩ := Section.table.inj hplace
  rw [hother.unique hmade]
  exact hmissing

theorem Orderly.openElement (h : g.Orderly) {path : List String} {key : String}
    (hopen : g.openElement path key = some g') : g'.Orderly := by
  obtain ⟨closed, hclosed, hopen⟩ := Option.bind_eq_some_iff.mp hopen
  obtain ⟨⟨_, root⟩, hwithin, hg'⟩ := Option.bind_eq_some_iff.mp hopen
  obtain rfl := Option.some.inj hg'
  obtain ⟨goal, made, hchange, -, -, hkeep⟩ := Entries.within_eq_some hwithin
  obtain ⟨hgoalKeyed, hroot⟩ := hkeep (h.close hclosed)
  refine ⟨hroot ?_, Entries.keyed_nil, nofun⟩
  split at hchange
  · rename_i hlookup
    obtain ⟨-, rfl⟩ := Prod.mk.inj (Option.some.inj hchange)
    exact hgoalKeyed.concat (notMem_keys hlookup) (.tables nofun nofun)
  · obtain ⟨-, rfl⟩ := Prod.mk.inj (Option.some.inj hchange)
    exact hgoalKeyed
  · cases hchange

theorem Orderly.add (h : g.Orderly) {statement : Statement}
    (hvalue : ∀ path key v, statement = .assign path key v → v.Keyed)
    (hadd : g.add statement = some g') : g'.Orderly := by
  cases statement with
  | assign path key v => exact h.assign (hvalue path key v rfl) hadd
  | table path key => exact h.openTable hadd
  | element path key => exact h.openElement hadd

/-- Values that are assigned keep their own keys distinct. -/
def Assigns (statements : List Statement) : Prop :=
  ∀ path key v, .assign path key v ∈ statements → v.Keyed

theorem Orderly.addAll : ∀ {statements : List Statement} {g : Growth}, g.Orderly →
    Assigns statements → statements.foldlM Growth.add g = some g' → g'.Orderly
  | [], _, h, _, hadd => by
      obtain rfl := Option.some.inj hadd
      exact h
  | statement :: rest, g, h, hvalues, hadd => by
      obtain ⟨next, hnext, hrest⟩ := Option.bind_eq_some_iff.mp hadd
      have hfirst := h.add (fun path key v heq => hvalues path key v (heq ▸ List.mem_cons_self)) hnext
      exact hfirst.addAll (fun path key v hmem => hvalues path key v (List.mem_cons_of_mem _ hmem))
        hrest

end Growth

/-! ## Finished values -/

theorem finishEntries_eq_map : ∀ entries : Entries,
    finishEntries entries = entries.map fun entry => (entry.1, entry.2.toValue)
  | [] => rfl
  | (_, _) :: rest => congrArg (_ :: ·) (finishEntries_eq_map rest)

theorem finishTables_eq_map : ∀ elements : List Entries,
    finishTables elements = elements.map fun entries => .table (finishEntries entries)
  | [] => rfl
  | _ :: rest => congrArg (_ :: ·) (finishTables_eq_map rest)

theorem keyed_finishEntries {entries : Entries} (hkeys : Distinct entries)
    (h : ∀ entry ∈ entries, entry.2.toValue.Keyed) : (Value.table (finishEntries entries)).Keyed := by
  rw [finishEntries_eq_map]
  refine .table ?_ fun entry hentry => ?_
  · unfold Distinct
    rw [List.map_map]
    exact hkeys
  · obtain ⟨node, hnode, rfl⟩ := List.mem_map.mp hentry
    exact h node hnode

theorem Node.Keyed.toValue {node : Node} (h : node.Keyed) : node.toValue.Keyed := by
  induction h with
  | value h => exact h
  | table hkeys _ ih => exact keyed_finishEntries hkeys ih
  | tables hkeys _ ih =>
      rw [Node.toValue, finishTables_eq_map]
      refine .array fun v hv => ?_
      obtain ⟨entries, hentries, rfl⟩ := List.mem_map.mp hv
      exact keyed_finishEntries (hkeys entries hentries) (ih entries hentries)

theorem Entries.Keyed.finished {entries : Entries} (h : entries.Keyed) :
    (Value.table (finishEntries entries)).Keyed :=
  keyed_finishEntries h.distinct fun entry hentry => (h.node entry hentry).toValue

theorem keyed_grow {statements : List Statement} (hvalues : Growth.Assigns statements)
    {document : Table} (h : grow statements = some document) : (Value.table document).Keyed := by
  obtain ⟨g, hg, h⟩ := Option.bind_eq_some_iff.mp h
  obtain ⟨root, hroot, h⟩ := Option.bind_eq_some_iff.mp h
  obtain rfl := Option.some.inj h
  exact ((Growth.orderly_start.addAll hvalues hg).close hroot).finished

end Toml

end HeapChurn
