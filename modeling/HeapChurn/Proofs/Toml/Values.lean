import HeapChurn.Proofs.Toml.Keys

/-!
# The keys of a file

Statements of a file assign values, and these may have tables of their own. They come about by the
same assignments as the document around them, so no file gives a key of one table twice, however deep
the table lies (`keyed_parse`).
-/

namespace HeapChurn

namespace Toml

/-- No value that is read has a table in it with a key twice. -/
def Reader.Keyed (item : Reader Value) : Prop := ∀ s v rest, item s = some (v, rest) → v.Keyed

variable {item : Reader Value}

theorem keyed_arrayItems (h : Reader.Keyed item) : ∀ (fuel : Nat) (s : List Char) {vs : List Value}
    {rest : List Char}, arrayItems item fuel s = some (vs, rest) → ∀ v ∈ vs, v.Keyed
  | 0, _, _, _, hread => by cases hread
  | fuel + 1, s, vs, rest, hread => by
      unfold arrayItems at hread
      split at hread
      · obtain ⟨rfl, -⟩ := Prod.mk.inj (Option.some.inj hread)
        exact nofun
      · obtain ⟨⟨v, s⟩, hv, hread⟩ := Option.bind_eq_some_iff.mp hread
        have hkeyed := h _ v s hv
        dsimp only at hread
        split at hread
        · obtain ⟨⟨vs, s⟩, hvs, hread⟩ := Option.bind_eq_some_iff.mp hread
          obtain ⟨rfl, -⟩ := Prod.mk.inj (Option.some.inj hread)
          exact List.forall_mem_cons.mpr ⟨hkeyed, keyed_arrayItems h fuel _ hvs⟩
        · obtain ⟨rfl, -⟩ := Prod.mk.inj (Option.some.inj hread)
          exact List.forall_mem_singleton.mpr hkeyed
        · cases hread

theorem keyed_inlinePairs (h : Reader.Keyed item) : ∀ (fuel : Nat) {entries out : Entries}
    (s : List Char) {rest : List Char}, entries.Keyed →
    inlinePairs item fuel entries s = some (out, rest) → out.Keyed
  | 0, _, _, _, _, _, hread => by cases hread
  | fuel + 1, entries, out, s, rest, hentries, hread => by
      unfold inlinePairs at hread
      obtain ⟨⟨⟨path, last⟩, s⟩, -, hread⟩ := Option.bind_eq_some_iff.mp hread
      obtain ⟨s, -, hread⟩ := Option.bind_eq_some_iff.mp hread
      obtain ⟨⟨v, s⟩, hv, hread⟩ := Option.bind_eq_some_iff.mp hread
      obtain ⟨next, hnext, hread⟩ := Option.bind_eq_some_iff.mp hread
      have hkeyed : Entries.Keyed next := hentries.assign (h _ v s hv) hnext
      split at hread
      · exact keyed_inlinePairs h fuel _ hkeyed hread
      · obtain ⟨rfl, -⟩ := Prod.mk.inj (Option.some.inj hread)
        exact hkeyed
      · cases hread

theorem keyed_inlineTable (h : Reader.Keyed item) : Reader.Keyed (inlineTable item) := by
  intro s v rest hread
  unfold inlineTable at hread
  split at hread
  · obtain ⟨rfl, -⟩ := Prod.mk.inj (Option.some.inj hread)
    exact .table List.nodup_nil nofun
  · obtain ⟨⟨entries, s⟩, hentries, hread⟩ := Option.bind_eq_some_iff.mp hread
    obtain ⟨rfl, -⟩ := Prod.mk.inj (Option.some.inj hread)
    exact (keyed_inlinePairs h _ _ Entries.keyed_nil hentries).finished

theorem keyed_integer? {z : Int} {v : Value} (h : integer? z = some v) : v.Keyed := by
  unfold integer? at h
  split at h
  · exact Option.some.inj h ▸ .atom nofun nofun
  · cases h

theorem keyed_based (base : Nat) : Reader.Keyed (number.based base) := by
  intro s v rest hread
  obtain ⟨⟨ds, s⟩, -, hread⟩ := Option.bind_eq_some_iff.mp hread
  obtain ⟨n, hn, hread⟩ := Option.bind_eq_some_iff.mp hread
  obtain ⟨rfl, -⟩ := Prod.mk.inj (Option.some.inj hread)
  exact keyed_integer? hn

theorem keyed_decimal (negative : Bool) : Reader.Keyed (decimal negative) := by
  intro s v rest hread
  obtain ⟨⟨whole, s⟩, -, hread⟩ := Option.bind_eq_some_iff.mp hread
  obtain ⟨⟨ds?, s⟩, -, hread⟩ := Option.bind_eq_some_iff.mp hread
  obtain ⟨⟨exp?, s⟩, -, hread⟩ := Option.bind_eq_some_iff.mp hread
  dsimp only at hread
  split at hread
  · obtain ⟨n, hn, hread⟩ := Option.bind_eq_some_iff.mp hread
    obtain ⟨rfl, -⟩ := Prod.mk.inj (Option.some.inj hread)
    exact keyed_integer? hn
  · split at hread
    · cases hread
    · obtain ⟨rfl, -⟩ := Prod.mk.inj (Option.some.inj hread)
      exact .atom nofun nofun

theorem keyed_number : Reader.Keyed number := by
  intro s v rest hread
  unfold number at hread
  split at hread
  · exact keyed_based 16 _ v rest hread
  · exact keyed_based 8 _ v rest hread
  · exact keyed_based 2 _ v rest hread
  · split at hread
    · obtain ⟨rfl, -⟩ := Prod.mk.inj (Option.some.inj hread)
      exact .atom nofun nofun
    · obtain ⟨rfl, -⟩ := Prod.mk.inj (Option.some.inj hread)
      exact .atom nofun nofun
    · exact keyed_decimal _ _ v rest hread

theorem keyed_keyword {word : String} {v : Value} (h : v.Keyed) : Reader.Keyed (keyword word v) := by
  intro s w rest hread
  unfold keyword at hread
  split at hread
  · obtain ⟨rfl, -⟩ := Prod.mk.inj (Option.some.inj hread)
    exact h
  · cases hread

theorem keyed_moment : Reader.Keyed moment := by
  intro s v rest hread
  obtain ⟨_, -, hread⟩ := Option.map_eq_some_iff.mp hread
  obtain ⟨rfl, -⟩ := Prod.mk.inj hread
  exact .atom nofun nofun

/-- A value that is neither a string nor nested begins with this character. -/
theorem keyed_plain (c : Char) : Reader.Keyed fun s =>
    if c = 't' then keyword "true" (.boolean true) s
    else if c = 'f' then keyword "false" (.boolean false) s
    else
      match moment s with
      | some result => some result
      | none => number s := by
  intro s v rest hread
  have hboolean : ∀ b, (Value.boolean b).Keyed := fun _ => .atom nofun nofun
  dsimp only at hread
  split at hread
  · exact keyed_keyword (hboolean true) s v rest hread
  · split at hread
    · exact keyed_keyword (hboolean false) s v rest hread
    · split at hread
      · rename_i hmoment
        exact keyed_moment s v rest (hmoment.trans hread)
      · exact keyed_number s v rest hread

theorem keyed_value : ∀ depth : Nat, Reader.Keyed (value depth)
  | depth, [], v, rest, hread => by
      unfold value at hread
      cases hread
  | depth, c :: s, v, rest, hread => by
      unfold value at hread
      dsimp only at hread
      split at hread
      · obtain ⟨⟨text, s⟩, -, hread⟩ := Option.bind_eq_some_iff.mp hread
        obtain ⟨rfl, -⟩ := Prod.mk.inj (Option.some.inj hread)
        exact .atom nofun nofun
      · split at hread
        · match depth, hread with
          | depth + 1, hread =>
              obtain ⟨⟨items, s⟩, hitems, hread⟩ := Option.bind_eq_some_iff.mp hread
              obtain ⟨rfl, -⟩ := Prod.mk.inj (Option.some.inj hread)
              exact .array (keyed_arrayItems (keyed_value depth) _ _ hitems)
        · split at hread
          · match depth, hread with
            | depth + 1, hread => exact keyed_inlineTable (keyed_value depth) s v rest hread
          · exact keyed_plain c (c :: s) v rest hread

/-! ## Statements -/

theorem keyed_of_header {s rest : List Char} {path : List String} {key : String} {v : Value}
    (h : header s = some (.assign path key v, rest)) : v.Keyed := by
  unfold header at h
  split at h
  · obtain ⟨_, -, h⟩ := Option.bind_eq_some_iff.mp h
    obtain ⟨_, -, h⟩ := Option.bind_eq_some_iff.mp h
    obtain ⟨_, -, h⟩ := Option.bind_eq_some_iff.mp h
    obtain ⟨_, -, h⟩ := Option.bind_eq_some_iff.mp h
    cases h
  · obtain ⟨_, -, h⟩ := Option.bind_eq_some_iff.mp h
    obtain ⟨_, -, h⟩ := Option.bind_eq_some_iff.mp h
    obtain ⟨_, -, h⟩ := Option.bind_eq_some_iff.mp h
    cases h

theorem keyed_of_assignment {s rest : List Char} {path : List String} {key : String} {v : Value}
    (h : assignment s = some (.assign path key v, rest)) : v.Keyed := by
  obtain ⟨_, -, h⟩ := Option.bind_eq_some_iff.mp h
  obtain ⟨_, -, h⟩ := Option.bind_eq_some_iff.mp h
  obtain ⟨⟨read, _⟩, hread, h⟩ := Option.bind_eq_some_iff.mp h
  obtain ⟨_, -, h⟩ := Option.bind_eq_some_iff.mp h
  obtain ⟨hassign, -⟩ := Prod.mk.inj (Option.some.inj h)
  obtain ⟨-, -, rfl⟩ := Statement.assign.inj hassign
  exact keyed_value _ _ _ _ hread

theorem Growth.Assigns.cons {statement : Statement} {later : List Statement}
    (h : ∀ path key v, statement = .assign path key v → v.Keyed) (hlater : Assigns later) :
    Assigns (statement :: later) := fun path key v hmem => by
  rcases List.mem_cons.mp hmem with heq | hrest
  · exact h path key v heq.symm
  · exact hlater path key v hrest

theorem assigns_statements : ∀ (fuel : Nat) (s : List Char) {ss : List Statement},
    statements fuel s = some ss → Growth.Assigns ss
  | 0, _, _, h => by cases h
  | fuel + 1, s, ss, h => by
      unfold statements at h
      split at h
      · obtain rfl := Option.some.inj h
        exact nofun
      · obtain ⟨s, -, h⟩ := Option.bind_eq_some_iff.mp h
        exact assigns_statements fuel s h
      · exact assigns_statements fuel _ h
      · exact assigns_statements fuel _ h
      · obtain ⟨⟨statement, s⟩, hheader, h⟩ := Option.bind_eq_some_iff.mp h
        obtain ⟨later, hlater, h⟩ := Option.bind_eq_some_iff.mp h
        obtain rfl := Option.some.inj h
        refine .cons ?_ (assigns_statements fuel s hlater)
        rintro path key v rfl
        exact keyed_of_header hheader
      · obtain ⟨⟨statement, s⟩, hassign, h⟩ := Option.bind_eq_some_iff.mp h
        obtain ⟨later, hlater, h⟩ := Option.bind_eq_some_iff.mp h
        obtain rfl := Option.some.inj h
        refine .cons ?_ (assigns_statements fuel s hlater)
        rintro path key v rfl
        exact keyed_of_assignment hassign

/-- No file gives a key of one table twice. -/
theorem keyed_parse {text : String} {document : Table} (h : parse text = some document) :
    (Value.table document).Keyed := by
  obtain ⟨ss, hss, hgrow⟩ := Option.bind_eq_some_iff.mp h
  exact keyed_grow (assigns_statements _ _ hss) hgrow

end Toml

end HeapChurn
