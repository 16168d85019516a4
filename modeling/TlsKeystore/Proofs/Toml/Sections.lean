/-
What assignments and sections add up to.

Assignments of different keys are a document with one entry each, in their
order. Sections of one name behind them are one entry more, an array with a
table for each. Where a key is assigned again, the document fails there,
whatever comes behind.
-/
import TlsKeystore.Proofs.Toml.Statements

namespace TlsKeystore.Toml

-- ============================================================= assignments

namespace Draft

/-- The entries that an assignment is added to. -/
def entries (d : Draft) : Entries :=
  match d.current with
  | none => d.root
  | some s => s.entries

/-- The draft with other such entries. -/
def withEntries (d : Draft) (es : Entries) : Draft :=
  match d.current with
  | none => { d with root := es }
  | some s => { d with current := some { s with entries := es } }

variable {d : Draft} {key : Key}

@[simp] theorem entries_withEntries (d : Draft) (es : Entries) :
    (d.withEntries es).entries = es := by
  obtain ⟨root, current⟩ := d
  cases current <;> rfl

@[simp] theorem withEntries_withEntries (d : Draft) (es es' : Entries) :
    (d.withEntries es).withEntries es' = d.withEntries es' := by
  obtain ⟨root, current⟩ := d
  cases current <;> rfl

@[simp] theorem withEntries_entries (d : Draft) :
    d.withEntries d.entries = d := by
  obtain ⟨root, current⟩ := d
  cases current <;> rfl

theorem add_assignment (hnew : d.entries.get? key.name = none) (mark : Nat)
    (node : Node) : d.add (.assignment mark [] key node)
      = .ok (d.withEntries (d.entries ++ [(key, node)])) := by
  obtain ⟨root, current⟩ := d
  cases current with
  | none =>
      have hroot : root.get? key.name = none := hnew
      rw [add]
      dsimp only
      rw [assign_of_get?_eq_none hroot]
      rfl
  | some s =>
      have hsection : s.entries.get? key.name = none := hnew
      rw [add]
      dsimp only
      rw [assign_of_get?_eq_none hsection]
      rfl

/-- A key that is there is not assigned again. -/
theorem add_repeated {root : Entries} (hold : (root.get? key.name).isSome = true)
    (mark : Nat) (node : Node) :
    Draft.add { root } (.assignment mark [] key node)
      = .error (.repeatedKey key.name (some [])) := by
  simp [add, assign, change, hold, bind, Except.bind]

end Draft

theorem Entries.get?_isSome {es : Entries} {name : String}
    (h : name ∈ es.map (·.1.name)) : (es.get? name).isSome = true := by
  obtain ⟨e, he, hname⟩ := List.mem_map.mp h
  rw [get?, Option.isSome_map, List.find?_isSome]
  exact ⟨e, he, by simpa using hname⟩

namespace Grammar

/-- An entry is what is said of a key. -/
structure IsEntry (a : String × Content) (e : Key × Node) : Prop where
  name : e.1.name = a.1
  value : Gives a.2 e.2

variable {as : List (String × Content)} {sts rest : List Statement}
  {es base : Entries} {d : Draft} {name : String}

theorem names_of_entries (h : List.Forall₂ IsEntry as es) :
    es.map (·.1.name) = as.map Prod.fst := by
  induction h with
  | nil => rfl
  | cons he _ ih => rw [List.map_cons, List.map_cons, he.name, ih]

/-- Assignments of new keys are added to the entries. -/
theorem documentFrom_of_assigned (hsts : List.Forall₂ Reads (assigned as) sts)
    (hkeys : (d.entries.map (·.1.name) ++ as.map Prod.fst).Nodup)
    (rest : List Statement) :
    ∃ es, documentFrom d (sts ++ rest)
        = documentFrom (d.withEntries (d.entries ++ es)) rest
      ∧ List.Forall₂ IsEntry as es := by
  induction as generalizing d sts with
  | nil =>
      cases hsts
      refine ⟨[], ?_, .nil⟩
      rw [List.append_nil, Draft.withEntries_entries, List.nil_append]
  | cons a as ih =>
      cases hsts with
      | cons hst hsts =>
          cases hst with
          | @assignment mark mark' _ _ node hnode =>
              let key : Key := ⟨a.1, mark'⟩
              have hnew : d.entries.get? key.name = none := by
                refine Entries.get?_eq_none fun hmem => ?_
                exact (List.nodup_append.mp hkeys).2.2 _ hmem _
                  List.mem_cons_self rfl
              let d' := d.withEntries (d.entries ++ [(key, node)])
              have hkeys' : (d'.entries.map (·.1.name) ++ as.map Prod.fst).Nodup := by
                simpa [d'] using hkeys
              obtain ⟨es, hmore, hes⟩ := ih hsts hkeys'
              refine ⟨(key, node) :: es, ?_, .cons ⟨rfl, hnode⟩ hes⟩
              rw [List.cons_append, documentFrom, Draft.add_assignment hnew]
              dsimp only
              rw [hmore, Draft.entries_withEntries, Draft.withEntries_withEntries,
                List.append_assoc, List.singleton_append]

-- ================================================================ sections

/-- What is related to two lists in a row is two lists in a row. -/
theorem exists_append_of_forall₂ {α β : Type} {R : α → β → Prop}
    {xs xs' : List α} {ys : List β} (h : List.Forall₂ R (xs ++ xs') ys) :
    ∃ zs zs', ys = zs ++ zs' ∧ List.Forall₂ R xs zs ∧ List.Forall₂ R xs' zs' :=
  ⟨ys.take xs.length, ys.drop xs.length, (List.take_append_drop ..).symm,
    (List.forall₂_take_append _ _ _ h.flip).flip,
    (List.forall₂_drop_append _ _ _ h.flip).flip⟩

/-- The tables of the sections of one name, behind the other entries. -/
inductive Collected (name : String) (base : Entries) :
    List Node → Entries → Prop where
  | none : Collected name base [] base
  | some {key : Key} {nodes : List Node} (hkey : key.name = name) :
      Collected name base nodes (base ++ [(key, .tables nodes)])

variable {nodes : List Node}

theorem get?_append_of_none {key : Key} (hbase : base.get? name = none)
    (hkey : key.name = name) (node : Node) :
    Entries.get? (base ++ [(key, node)]) name = some node := by
  rw [Entries.get?, Option.map_eq_none_iff] at hbase
  rw [Entries.get?, List.find?_append, hbase]
  simp [hkey]

/-- An entry that stands behind those of other names is replaced where it
stands. -/
theorem put_append_of_none {key : Key} (key' : Key)
    (hbase : base.get? key'.name = none) (hkey : key.name = key'.name)
    (node node' : Node) :
    Entries.put (base ++ [(key, node)]) key' node' = base ++ [(key, node')] := by
  have hother : ∀ e ∈ base, (e.1.name == key'.name) = false := by
    rw [Entries.get?, Option.map_eq_none_iff, List.find?_eq_none] at hbase
    intro e he
    exact Bool.eq_false_iff.mpr (hbase e he)
  have hbase' : base.map (fun e => if e.1.name == key'.name then (e.1, node') else e)
      = base := by
    have hsame : ∀ e ∈ base,
        (if e.1.name == key'.name then (e.1, node') else e) = id e := by
      intro e he
      rw [hother e he]
      rfl
    rw [List.map_congr_left hsame, List.map_id]
  rw [Entries.put, if_pos (by simp [hkey]), List.map_append, hbase']
  simp [hkey]

/-- A header makes room for one more table. -/
theorem room_of_collected (hbase : base.get? name = none) {root : Entries}
    (h : Collected name base nodes root) (mark : Nat) :
    ∃ key : Key, change .header (Draft.room true ⟨name, mark⟩) [] false root
        = .ok (base ++ [(key, .tables nodes)], [])
      ∧ key.name = name := by
  cases h with
  | none =>
      refine ⟨⟨name, mark⟩, ?_, rfl⟩
      simp only [change, Draft.room, hbase]
  | @some key nodes hkey =>
      refine ⟨key, ?_, hkey⟩
      simp only [change, Draft.room, get?_append_of_none hbase hkey]

/-- The open section is put behind the others. -/
theorem close_of_section (hbase : base.get? name = none) {key : Key}
    (hkey : key.name = name) (nodes : List Node) (mark mark' : Nat)
    (es : Entries) :
    Draft.close
        { root := base ++ [(key, .tables nodes)]
          current := some ⟨mark, true, [], ⟨name, mark'⟩, es⟩ }
      = .ok (base
        ++ [(key, .tables (nodes ++ [.table (some mark) .section es]))]) := by
  have hget := get?_append_of_none hbase hkey (.tables nodes)
  have hput := put_append_of_none ⟨name, mark'⟩ hbase hkey (.tables nodes)
    (.tables (nodes ++ [.table (some mark) .section es]))
  simp only [Draft.close, change, if_true, hget, hput]
  rfl

theorem IsEntry.isPair {p : String × String} {e : Key × Node}
    (h : IsEntry (p.1, .scalar (.string p.2)) e) : IsPair p e := by
  obtain ⟨key, node⟩ := e
  obtain ⟨hname, hvalue⟩ := h
  cases hvalue with
  | scalar mark => exact ⟨hname, mark, rfl⟩

/-- Sections of one name are collected one after the other. -/
theorem documentFrom_of_sections {items : List Pairs} {root : Entries}
    (hbase : base.get? name = none)
    (hsts : List.Forall₂ Reads (sections name items) sts)
    (hdistinct : ∀ ps ∈ items, Distinct ps) (hclose : d.close = .ok root)
    (hroot : Collected name base nodes root) :
    ∃ nodes' es, documentFrom d sts = .ok es
      ∧ Collected name base (nodes ++ nodes') es
      ∧ List.Forall₂ IsTable items nodes' := by
  induction items generalizing d sts root nodes with
  | nil =>
      cases hsts
      refine ⟨[], root, ?_, ?_, .nil⟩
      · rw [documentFrom, hclose]
        rfl
      · rw [List.append_nil]
        exact hroot
  | cons ps items ih =>
      rw [sections, List.flatMap_cons, List.cons_append] at hsts
      cases hsts with
      | @cons _ st _ sts hst hsts =>
          obtain ⟨sts₁, sts₂, rfl, hsts₁, hsts₂⟩ := exists_append_of_forall₂ hsts
          cases hst with
          | header mark mark' _ =>
              obtain ⟨key, hroom, hkey⟩ := room_of_collected hbase hroot mark'
              let open' : Draft :=
                { root := base ++ [(key, .tables nodes)]
                  current := some ⟨mark, true, [], ⟨name, mark'⟩, []⟩ }
              have hadd : d.add (.header mark true [] ⟨name, mark'⟩)
                  = .ok open' := by
                rw [Draft.add, hclose]
                simp only [bind, Except.bind, hroom]
                rfl
              have hkeys : (open'.entries.map (·.1.name) ++
                  (ps.map fun p => (p.1, Content.scalar (.string p.2))).map
                    Prod.fst).Nodup := by
                have hps := hdistinct ps List.mem_cons_self
                simpa [open', Draft.entries, Distinct, Function.comp_def] using hps
              obtain ⟨es, hread, hes⟩ :=
                documentFrom_of_assigned hsts₁ hkeys sts₂
              have htable : IsTable ps (.table (some mark) .section es) := by
                rw [List.forall₂_map_left_iff] at hes
                exact ⟨_, _, es, rfl, hes.imp fun _ _ => IsEntry.isPair⟩
              have hclose' := close_of_section hbase hkey nodes mark mark' es
              obtain ⟨nodes', root', hmore, hroot', hnodes'⟩ := ih hsts₂
                (fun ps' hps' => hdistinct ps' (List.mem_cons_of_mem _ hps'))
                hclose' (.some hkey)
              refine ⟨.table (some mark) .section es :: nodes', root', ?_, ?_,
                .cons htable hnodes'⟩
              · rw [documentFrom, hadd]
                dsimp only
                rw [hread]
                exact hmore
              · rw [List.append_cons]
                exact hroot'

-- =============================================================== documents

/-- What a text gives its keys: its assignments, and behind them the tables of
its sections, if there are any. -/
def contents (as : List (String × Content)) (name : String)
    (items : List Pairs) : List (String × Content) :=
  match items with
  | [] => as
  | ps :: items => as ++ [(name, .tables (ps :: items))]

/-- No table has a key twice, neither in an array nor in a section. -/
def AllDistinct (as : List (String × Content)) (items : List Pairs) : Prop :=
  (∀ a ∈ as, a.2.Distinct) ∧ ∀ ps ∈ items, Distinct ps

/-- No key is given a number that is too large. -/
def Bounded (as : List (String × Content)) : Prop :=
  ∀ a ∈ as, ¬ a.2.TooLarge

variable {items : List Pairs} {w : List Char}

theorem distinct_of_all (h : AllDistinct as items) (name : String) :
    ∀ e ∈ assigned as ++ sections name items, e.Distinct := by
  intro e he
  rcases List.mem_append.mp he with he | he
  · obtain ⟨a, ha, rfl⟩ := List.mem_map.mp he
    exact h.1 a ha
  · obtain ⟨ps, -, he⟩ := List.mem_flatMap.mp he
    rcases List.mem_cons.mp he with rfl | he
    · trivial
    · obtain ⟨a, ha, rfl⟩ := List.mem_map.mp he
      obtain ⟨p, -, rfl⟩ := List.mem_map.mp ha
      trivial

/-- In sections there are strings only. -/
theorem small_of_bounded (h : Bounded as) (name : String)
    (items : List Pairs) :
    ∀ e ∈ assigned as ++ sections name items, ¬ e.TooLarge := by
  intro e he
  rcases List.mem_append.mp he with he | he
  · obtain ⟨a, ha, rfl⟩ := List.mem_map.mp he
    exact h a ha
  · obtain ⟨ps, -, he⟩ := List.mem_flatMap.mp he
    rcases List.mem_cons.mp he with rfl | he
    · exact id
    · obtain ⟨a, ha, rfl⟩ := List.mem_map.mp he
      obtain ⟨p, -, rfl⟩ := List.mem_map.mp ha
      exact id

/-- A text of assignments with sections behind them is a document with an entry
for each key. -/
theorem parse_of_contents
    (hw : Text (assigned as ++ sections name items) w)
    (hall : AllDistinct as items) (hbounded : Bounded as)
    (hkeys : ((contents as name items).map Prod.fst).Nodup) :
    ∃ es, parse w = .ok es
      ∧ List.Forall₂ IsEntry (contents as name items) es := by
  obtain ⟨sts, hsts, hparse⟩ := parse_of_text hw (distinct_of_all hall name)
    (small_of_bounded hbounded name items)
  obtain ⟨sts₁, sts₂, rfl, hsts₁, hsts₂⟩ := exists_append_of_forall₂ hsts
  have has : (({} : Draft).entries.map (·.1.name) ++ as.map Prod.fst).Nodup := by
    cases items with
    | nil => exact hkeys
    | cons ps items =>
        rw [contents, List.map_append] at hkeys
        exact (List.nodup_append.mp hkeys).1
  obtain ⟨base, hread, hbase⟩ := documentFrom_of_assigned hsts₁ has sts₂
  have hroot : ({} : Draft).withEntries (({} : Draft).entries ++ base)
      = { root := base } := rfl
  rw [hread, hroot] at hparse
  cases items with
  | nil =>
      cases hsts₂
      exact ⟨base, hparse, hbase⟩
  | cons ps items =>
      have hnew : base.get? name = none := by
        apply Entries.get?_eq_none
        rw [names_of_entries hbase]
        rw [contents, List.map_append] at hkeys
        exact fun hmem => (List.nodup_append.mp hkeys).2.2 _ hmem _
          List.mem_cons_self rfl
      have hclose : Draft.close { root := base } = .ok base := rfl
      obtain ⟨nodes, es, hread, hes, hnodes⟩ :=
        documentFrom_of_sections hnew hsts₂ hall.2 hclose .none
      refine ⟨es, hparse.trans hread, ?_⟩
      rw [List.nil_append] at hes
      cases hes with
      | none => cases hnodes
      | some hkey =>
          exact List.rel_append hbase (.cons ⟨hkey, .sections hnodes⟩ .nil)

/-- A number that is too large, whatever else is assigned, is a fault. -/
theorem parse_of_unbounded {es : List Expression}
    (hw : Text (assigned as ++ es) w)
    (hdistinct : ∀ e ∈ assigned as ++ es, e.Distinct) (h : ¬ Bounded as) :
    ∃ f, parse w = .error f := by
  apply parse_of_tooLarge hw hdistinct
  simp only [Bounded, not_forall, not_not] at h
  obtain ⟨a, ha, hlarge⟩ := h
  exact ⟨_, List.mem_append_left _ (List.mem_map_of_mem ha), hlarge⟩

/-- Where a key is assigned again, nothing that comes behind matters. -/
theorem parse_of_repeated {front back : List (String × Content)}
    {a : String × Content} {es : List Expression}
    (hw : Text (assigned (front ++ a :: back) ++ es) w)
    (hdistinct : ∀ e ∈ assigned (front ++ a :: back) ++ es, e.Distinct)
    (hsmall : ∀ e ∈ assigned (front ++ a :: back) ++ es, ¬ e.TooLarge)
    (hkeys : (front.map Prod.fst).Nodup) (ha : a.1 ∈ front.map Prod.fst) :
    ∃ mark, parse w = .error ⟨mark, .repeatedKey a.1 (some [])⟩ := by
  obtain ⟨sts, hsts, hparse⟩ := parse_of_text hw hdistinct hsmall
  obtain ⟨sts₁, sts₂, rfl, hsts₁, hsts₂⟩ := exists_append_of_forall₂ hsts
  rw [assigned, List.map_append, List.map_cons] at hsts₁
  obtain ⟨sts₃, sts₄, rfl, hsts₃, hsts₄⟩ := exists_append_of_forall₂ hsts₁
  cases hsts₄ with
  | @cons _ st _ sts₄ hst _ =>
      have hnone : (({} : Draft).entries.map (·.1.name)
          ++ front.map Prod.fst).Nodup := hkeys
      obtain ⟨base, hread, hbase⟩ :=
        documentFrom_of_assigned hsts₃ hnone (st :: sts₄ ++ sts₂)
      have hroot : ({} : Draft).withEntries (({} : Draft).entries ++ base)
          = { root := base } := rfl
      rw [← names_of_entries hbase] at ha
      cases hst with
      | @assignment mark mark' _ _ node =>
          have hadd : Draft.add { root := base }
              (.assignment mark [] ⟨a.1, mark'⟩ node)
              = .error (.repeatedKey a.1 (some [])) :=
            Draft.add_repeated (Entries.get?_isSome ha) mark node
          refine ⟨mark, ?_⟩
          rw [hparse, List.append_assoc, hread, hroot, List.cons_append,
            documentFrom, hadd]
          rfl

end Grammar
end TlsKeystore.Toml
