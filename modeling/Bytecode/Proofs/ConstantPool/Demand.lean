import Bytecode.Proofs.Constant.Resolution
import Bytecode.Proofs.ConstantPool.Items
import Bytecode.Proofs.ConstantPool.Sharing

/-!
# What additions ask of a pool

A pool without pushed constants holds one constant for each item that was asked for, and nothing
else. An addition asks for one item, or for a text and then what refers to it, and it is refused
only if these would take up more than there is room for. So a run of additions on a new pool comes
to the same end whatever their order is, although the indices it gives differ.

## Main definitions

* `ConstantPool.StandsFor`: the item that a constant of a pool stands for
* `ConstantPool.Holds`: a pool holds items, and nothing else
* `Addition.items`: the items that an addition asks for
* `ConstantPool.demand`: how much additions ask for

## Main results

* `ConstantPool.Holds.of_intern`, `ConstantPool.Holds.of_build`: interning puts an item, and an
  addition its items, with those held
* `ConstantPool.size_eq_demand`, `ConstantPool.overflow_iff_maxIndex_lt_demand`: what a run leaves,
  and when it is refused
* `ConstantPool.outcome_of_perm`: the order of additions does not matter
-/

namespace Bytecode

open ConstantPool

/-! ## Items and constants -/

theorem Constant.agrees_iff_eq_of_refersTo {a b : Constant} {textIndex : UInt16}
    (h : b.RefersTo textIndex) : a.agrees b = true ↔ a = b := by
  rw [agrees_iff]
  cases h with
  | string => simp [isNaN, oppositeZero?]
  | classRef => simp [isNaN, oppositeZero?]

/-- A value agrees with nothing that refers to a text. -/
theorem Constant.agrees_eq_false_of_refersTo {a b : Constant} {textIndex : UInt16}
    (ha : ∀ index, ¬a.RefersTo index) (hb : b.RefersTo textIndex) : a.agrees b = false := by
  refine Bool.eq_false_iff.mpr ?_
  intro hagrees
  obtain rfl := (agrees_iff_eq_of_refersTo hb).mp hagrees
  exact ha textIndex hb

/-- Constants that refer to a text are known by their kind and their index. -/
theorem Constant.RefersTo.eq_iff {a b : Constant} {i j : UInt16} (ha : a.RefersTo i)
    (hb : b.RefersTo j) : a = b ↔ a.tag = b.tag ∧ i = j := by
  cases ha <;> cases hb <;> simp [tag]

namespace ConstantPool

open Item

variable {pool pool' : ConstantPool} {constant other : Constant} {item item' : Item}
  {index : UInt16} {held : List Item} {e : PoolError}

/-- **A constant stands for an item**: it is the value, or refers to a text of the pool. -/
inductive StandsFor (pool : ConstantPool) : Constant → Item → Prop
  | value {constant : Constant} (h : ∀ textIndex, ¬constant.RefersTo textIndex) :
      StandsFor pool constant (.value constant)
  | reference {constant : Constant} {textIndex : UInt16} {text : String}
      (h : constant.RefersTo textIndex) (htext : pool.constantAt textIndex = some (.utf8 text)) :
      StandsFor pool constant (.reference constant.tag text)

theorem StandsFor.slots_eq (h : pool.StandsFor constant item) : constant.slots = item.slots := by
  cases h with
  | value _ => rfl
  | reference hrefers _ => cases hrefers <;> rfl

/-- A constant goes on to stand for its item, whatever is appended. -/
theorem StandsFor.append (h : pool.StandsFor constant item) (appended : Constant) :
    (pool.append appended).StandsFor constant item := by
  cases h with
  | value hvalue => exact .value hvalue
  | reference hrefers htext => exact .reference hrefers (constantAt_append_of_some htext appended)

/-- Without duplicates the same text has the same index. -/
theorem Distinct.textIndex_eq_iff (hdistinct : pool.Distinct) {i j : UInt16} {text text' : String}
    (hi : pool.constantAt i = some (.utf8 text)) (hj : pool.constantAt j = some (.utf8 text')) :
    i = j ↔ text = text' := by
  constructor
  · rintro rfl
    rw [hi, Option.some.injEq, Constant.utf8.injEq] at hj
    exact hj
  · rintro rfl
    exact hdistinct i j _ _ hi hj ((Constant.agrees_self_iff _).mpr rfl)

/-- **Constants agree exactly if their items share a place**, in a pool without duplicates. -/
theorem StandsFor.agrees_iff (hdistinct : pool.Distinct) (h : pool.StandsFor constant item)
    (h' : pool.StandsFor other item') :
    constant.agrees other = true ↔ item.shares item' = true := by
  cases h with
  | value hvalue =>
    cases h' with
    | value _ => exact Iff.rfl
    | reference hrefers _ =>
      rw [Constant.agrees_eq_false_of_refersTo hvalue hrefers]
      exact Iff.rfl
  | reference hrefers htext =>
    cases h' with
    | value hvalue =>
      rw [Constant.agrees_comm, Constant.agrees_eq_false_of_refersTo hvalue hrefers]
      exact Iff.rfl
    | reference hrefers' htext' =>
      rw [Constant.agrees_iff_eq_of_refersTo hrefers', hrefers.eq_iff hrefers', shares,
        decide_eq_true_iff, hdistinct.textIndex_eq_iff htext htext']

/-! ## What a pool holds -/

/-- **A pool holds items**, and nothing else: its constants stand for them, no two constants
agree, and no more indices are taken. -/
structure Holds (pool : ConstantPool) (held : List Item) : Prop where
  size_eq : pool.size = 1 + total held
  distinct : pool.Distinct
  item_of_constant : ∀ index constant, pool.constantAt index = some constant →
    ∃ item ∈ held, pool.StandsFor constant item
  constant_of_item : ∀ item ∈ held,
    ∃ index constant, pool.constantAt index = some constant ∧ pool.StandsFor constant item

theorem holds_new : new.Holds [] where
  size_eq := rfl
  distinct := distinct_new
  item_of_constant index constant h := by
    rw [constantAt_new] at h
    cases h
  constant_of_item item hmem := by cases hmem

namespace Holds

/-- **The search finds nothing** exactly if the item has no place. -/
theorem find?_eq_none_iff (h : pool.Holds held) (hstands : pool.StandsFor constant item) :
    pool.find? constant = none ↔ hasPlace held item = false := by
  rw [ConstantPool.find?_eq_none_iff]
  constructor
  · intro hdiffers
    refine Bool.eq_false_iff.mpr ?_
    intro hplace
    obtain ⟨first, hmem, hshares⟩ := hasPlace_iff.mp hplace
    obtain ⟨index, found, hfound, hfirst⟩ := h.constant_of_item first hmem
    have hagrees := (hfirst.agrees_iff h.distinct hstands).mpr hshares
    rw [hdiffers index found hfound] at hagrees
    cases hagrees
  · intro hplace index found hfound
    refine Bool.eq_false_iff.mpr ?_
    intro hagrees
    obtain ⟨first, hmem, hfirst⟩ := h.item_of_constant index found hfound
    have hshares := (hfirst.agrees_iff h.distinct hstands).mp hagrees
    rw [hasPlace_iff.mpr ⟨first, hmem, hshares⟩] at hplace
    cases hplace

/-- A constant that is not found can be appended, and its item is held. -/
theorem append (h : pool.Holds held) (hstands : pool.StandsFor constant item)
    (hindex : pool.size ≤ maxIndex) (hnone : pool.find? constant = none) :
    (pool.append constant).Holds (held ++ [item]) where
  size_eq := by
    rw [size_append, h.size_eq, hstands.slots_eq, total, total, List.map_append, List.sum_append]
    exact Nat.add_assoc _ _ _
  distinct := h.distinct.append hnone
  item_of_constant index found hfound := by
    rw [constantAt_append] at hfound
    split at hfound
    · cases hfound
      exact ⟨item, List.mem_concat_self, hstands.append constant⟩
    · obtain ⟨older, hmem, hstood⟩ := h.item_of_constant index found hfound
      exact ⟨older, List.mem_append_left _ hmem, hstood.append constant⟩
  constant_of_item wanted hmem := by
    rcases List.mem_append.mp hmem with holder | hnew
    · obtain ⟨index, found, hfound, hstood⟩ := h.constant_of_item wanted holder
      exact ⟨index, found, constantAt_append_of_some hfound constant, hstood.append constant⟩
    · obtain rfl := List.mem_singleton.mp hnew
      exact ⟨_, constant, constantAt_append_size hindex constant, hstands.append constant⟩

/-- **Interning puts an item** with those held. -/
theorem of_intern (h : pool.Holds held) (hstands : pool.StandsFor constant item)
    (hrun : (intern constant).runOn pool = (.ok index, pool')) : pool'.Holds (put held item) := by
  rcases runOn_intern_eq_ok_iff.mp hrun with ⟨hfind, rfl⟩ | ⟨hnone, hpush⟩
  · cases hplace : hasPlace held item with
    | true =>
      rw [put, if_pos hplace]
      exact h
    | false =>
      rw [(h.find?_eq_none_iff hstands).mpr hplace] at hfind
      cases hfind
  · obtain ⟨hroom, -, rfl⟩ := runOn_push_eq_ok_iff.mp hpush
    have hfree := (h.find?_eq_none_iff hstands).mp hnone
    rw [put, if_neg (Bool.eq_false_iff.mp hfree)]
    exact h.append hstands (Nat.le_of_add_right_le hroom) hnone

/-- **Interning is refused** only if the items then take up too much. -/
theorem maxIndex_lt_of_intern (h : pool.Holds held) (hstands : pool.StandsFor constant item)
    (hrun : (intern constant).runOn pool = (.error e, pool')) :
    maxIndex < 1 + total (put held item) := by
  obtain ⟨hnone, hpush⟩ := runOn_intern_eq_error_iff.mp hrun
  have hfree := (h.find?_eq_none_iff hstands).mp hnone
  have hroom := (runOn_push_eq_error_iff.mp hpush).1
  rw [h.size_eq, hstands.slots_eq] at hroom
  rw [total_put, hfree, if_neg Bool.false_ne_true, ← Nat.add_assoc]
  exact hroom

end Holds

end ConstantPool

/-! ## Additions -/

namespace Addition

/-- **The items that an addition asks for**, one after another. A push asks for none: it never
shares. -/
def items : Addition → List Item
  | push _ => []
  | utf8 text => [.value (.utf8 text)]
  | integer value => [.value (.integer value)]
  | float bits => [.value (.float bits)]
  | long value => [.value (.long value)]
  | double bits => [.value (.double bits)]
  | string text => [.value (.utf8 text), .reference .string text]
  | classNamed name =>
    [.value (.utf8 (Text.replace '.' '/' name)), .reference .classRef (Text.replace '.' '/' name)]

/-- An addition interns a value, or a text and then what refers to it; its items say which. -/
theorem asks_cases {addition : Addition} (hpush : ∀ constant, addition ≠ .push constant) :
    (∃ constant, addition.build = intern constant ∧ addition.items = [.value constant] ∧
      ∀ index, ¬constant.RefersTo index) ∨
    ∃ (text : String) (refer : UInt16 → Constant) (kind : Tag),
      addition.build = (addUtf8 text >>= fun index => intern (refer index)) ∧
      addition.items = [.value (.utf8 text), .reference kind text] ∧
      ∀ index, (refer index).RefersTo index ∧ (refer index).tag = kind := by
  cases addition with
  | push constant => exact absurd rfl (hpush constant)
  | string text => exact .inr ⟨text, .string, .string, rfl, rfl, fun _ => ⟨.string, rfl⟩⟩
  | classNamed name => exact .inr ⟨_, .classRef, .classRef, rfl, rfl, fun _ => ⟨.classRef, rfl⟩⟩
  | _ => exact .inl ⟨_, rfl, rfl, fun _ h => nomatch h⟩

end Addition

namespace ConstantPool

open Item

variable {pool pool' : ConstantPool} {additions others : List Addition} {addition : Addition}
  {index : UInt16} {indices : List UInt16} {held : List Item} {e : PoolError}

theorem standsFor_utf8 (pool : ConstantPool) (text : String) :
    pool.StandsFor (.utf8 text) (.value (.utf8 text)) :=
  .value fun _ h => nomatch h

namespace Holds

/-- Once a text is interned, what refers to it stands for the item that names it. -/
theorem standsFor_refer {text : String} {refer : UInt16 → Constant} {kind : Tag}
    (hrefer : ∀ index, (refer index).RefersTo index ∧ (refer index).tag = kind)
    (h : (addUtf8 text).runOn pool = (.ok index, pool')) :
    pool'.StandsFor (refer index) (.reference kind text) := by
  obtain ⟨hrefers, rfl⟩ := hrefer index
  exact .reference hrefers (constantAt_of_intern_of_ne_zero rfl h)

/-- **An addition puts its items** with those held. -/
theorem of_build (h : pool.Holds held) (hpush : ∀ constant, addition ≠ .push constant)
    (hrun : addition.build.runOn pool = (.ok index, pool')) :
    pool'.Holds (addition.items.foldl put held) := by
  rcases Addition.asks_cases hpush with
    ⟨constant, hbuild, hitems, hvalue⟩ | ⟨text, refer, kind, hbuild, hitems, hrefer⟩
  · rw [hbuild] at hrun
    rw [hitems]
    exact h.of_intern (.value hvalue) hrun
  · rw [hbuild] at hrun
    rw [hitems]
    obtain ⟨textIndex, middle, htext, hlast⟩ := Building.runOn_bind_eq_ok hrun
    have hmiddle := h.of_intern (standsFor_utf8 pool text) htext
    exact hmiddle.of_intern (standsFor_refer hrefer htext) hlast

/-- **An addition is refused** only if its items then take up too much. -/
theorem maxIndex_lt_of_build (h : pool.Holds held) (hpush : ∀ constant, addition ≠ .push constant)
    (hrun : addition.build.runOn pool = (.error e, pool')) :
    maxIndex < 1 + total (addition.items.foldl put held) := by
  rcases Addition.asks_cases hpush with
    ⟨constant, hbuild, hitems, hvalue⟩ | ⟨text, refer, kind, hbuild, hitems, hrefer⟩
  · rw [hbuild] at hrun
    rw [hitems]
    exact h.maxIndex_lt_of_intern (.value hvalue) hrun
  · rw [hbuild] at hrun
    rw [hitems]
    rcases Building.runOn_bind_eq_error hrun with htext | ⟨textIndex, middle, htext, hlast⟩
    · -- there is no room for the text, let alone for what refers to it
      have hover := h.maxIndex_lt_of_intern (standsFor_utf8 pool text) htext
      exact Nat.lt_of_lt_of_le hover
        (Nat.add_le_add_left (total_le_foldl [.reference kind text] _) 1)
    · have hmiddle := h.of_intern (standsFor_utf8 pool text) htext
      exact hmiddle.maxIndex_lt_of_intern (standsFor_refer hrefer htext) hlast

/-- **A run puts the items** of all its additions with those held. -/
theorem of_buildAll (h : pool.Holds held) (hpush : ∀ constant, Addition.push constant ∉ additions)
    (hrun : (buildAll additions).runOn pool = (.ok indices, pool')) :
    pool'.Holds ((additions.flatMap Addition.items).foldl put held) := by
  -- by induction on the additions, on whatever the pool holds when the next one comes
  induction additions generalizing pool held indices with
  | nil =>
    cases hrun
    exact h
  | cons addition rest ih =>
    obtain ⟨index, middle, hfirst, hrun⟩ := Building.runOn_bind_eq_ok hrun
    obtain ⟨indices, last, hrest, hreturn⟩ := Building.runOn_bind_eq_ok hrun
    cases hreturn
    have hnow := h.of_build (fun constant hsame => hpush constant (hsame ▸ List.mem_cons_self))
      hfirst
    rw [List.flatMap_cons, List.foldl_append]
    exact ih hnow (fun constant hmem => hpush constant (List.mem_cons_of_mem _ hmem)) hrest

/-- **A run is refused** only if the items of all its additions take up too much. -/
theorem maxIndex_lt_of_buildAll (h : pool.Holds held)
    (hpush : ∀ constant, Addition.push constant ∉ additions)
    (hrun : (buildAll additions).runOn pool = (.error e, pool')) :
    maxIndex < 1 + total ((additions.flatMap Addition.items).foldl put held) := by
  induction additions generalizing pool held with
  | nil => cases hrun
  | cons addition rest ih =>
    have hfirst : ∀ constant, addition ≠ .push constant := fun constant hsame =>
      hpush constant (hsame ▸ List.mem_cons_self)
    rw [List.flatMap_cons, List.foldl_append]
    rcases Building.runOn_bind_eq_error hrun with hrun | ⟨index, middle, hok, hrun⟩
    · -- the items of the additions behind the refused one only take up more
      exact Nat.lt_of_lt_of_le (h.maxIndex_lt_of_build hfirst hrun)
        (Nat.add_le_add_left (total_le_foldl _ _) 1)
    · rcases Building.runOn_bind_eq_error hrun with hrest | ⟨indices, last, -, hreturn⟩
      · exact ih (h.of_build hfirst hok)
          (fun constant hmem => hpush constant (List.mem_cons_of_mem _ hmem)) hrest
      · cases hreturn

end Holds

/-! ## The order of additions -/

/-- **How much additions ask for**: the size of a new pool with one constant for each of their
items. -/
def demand (additions : List Addition) : Nat :=
  1 + total ((additions.flatMap Addition.items).foldl put [])

theorem demand_eq_of_perm (h : additions.Perm others) : demand additions = demand others := by
  have halike := alike_of_perm (h.flatMap_right Addition.items) []
  rw [demand, demand, halike.total_eq]

/-- **A run without a push that is not refused** leaves a pool of the size that was asked for. -/
theorem size_eq_demand (hpush : ∀ constant, Addition.push constant ∉ additions)
    (h : (buildAll additions).runOn new = (.ok indices, pool)) :
    pool.size = demand additions :=
  (holds_new.of_buildAll hpush h).size_eq

/-- **A run without a push is refused** exactly if more is asked for than there is room. -/
theorem overflow_iff_maxIndex_lt_demand
    (hpush : ∀ constant, Addition.push constant ∉ additions) :
    ((buildAll additions).runOn new).1 = .error .overflow ↔ maxIndex < demand additions := by
  rcases h : (buildAll additions).runOn new with ⟨e | indices, pool⟩
  · cases e
    exact ⟨fun _ => holds_new.maxIndex_lt_of_buildAll hpush h, fun _ => rfl⟩
  · have hroom : pool.size ≤ maxIndex :=
      (LeadsTo.growsTo ⟨additions, indices, h⟩).size_le_maxIndex (by decide)
    rw [size_eq_demand hpush h] at hroom
    constructor
    · intro hrefused
      cases hrefused
    · intro hover
      exact absurd hroom (Nat.not_le.mpr hover)

/-- **The order of additions does not matter**, as long as nothing is pushed. In any order they
are refused or not, and if they are not, the pool has the same size in the end. -/
theorem outcome_of_perm (hperm : additions.Perm others)
    (hpush : ∀ constant, Addition.push constant ∉ additions) :
    (((buildAll additions).runOn new).1 = .error .overflow ↔
      ((buildAll others).runOn new).1 = .error .overflow) ∧
    ∀ indices pool indices' pool', (buildAll additions).runOn new = (.ok indices, pool) →
      (buildAll others).runOn new = (.ok indices', pool') → pool.size = pool'.size := by
  have hpush' : ∀ constant, Addition.push constant ∉ others := by
    intro constant hmem
    exact hpush constant (hperm.mem_iff.mpr hmem)
  constructor
  · rw [overflow_iff_maxIndex_lt_demand hpush, overflow_iff_maxIndex_lt_demand hpush',
      demand_eq_of_perm hperm]
  · intro indices pool indices' pool' h h'
    rw [size_eq_demand hpush h, size_eq_demand hpush' h', demand_eq_of_perm hperm]

/-- A class and a text object share a text, and the zeros of either sign are one; the indices differ
when all this is added in the reverse order. -/
theorem outcome_of_perm_shared :
    (buildAll [.classNamed "a.b", .string "a/b", .float 0, .float 0x80000000, .long 7]).runOn new =
        (.ok [2, 3, 4, 4, 5], ⟨#[none, some (.utf8 "a/b"), some (.classRef 1), some (.string 1),
          some (.float 0), some (.long 7), none]⟩) ∧
      (buildAll [.long 7, .float 0x80000000, .float 0, .string "a/b",
          .classNamed "a.b"]).runOn new =
        (.ok [1, 3, 3, 5, 6], ⟨#[none, some (.long 7), none, some (.float 0x80000000),
          some (.utf8 "a/b"), some (.string 4), some (.classRef 4)]⟩) ∧
      size ⟨#[none, some (.utf8 "a/b"), some (.classRef 1), some (.string 1), some (.float 0),
          some (.long 7), none]⟩ =
        size ⟨#[none, some (.long 7), none, some (.float 0x80000000), some (.utf8 "a/b"),
          some (.string 4), some (.classRef 4)]⟩ := by
  have hrun : (buildAll [.classNamed "a.b", .string "a/b", .float 0, .float 0x80000000,
      .long 7]).runOn new = (.ok [2, 3, 4, 4, 5], ⟨#[none, some (.utf8 "a/b"),
        some (.classRef 1), some (.string 1), some (.float 0), some (.long 7), none]⟩) := by
    decide +kernel
  have hreversed : (buildAll [.long 7, .float 0x80000000, .float 0, .string "a/b",
      .classNamed "a.b"]).runOn new = (.ok [1, 3, 3, 5, 6], ⟨#[none, some (.long 7), none,
        some (.float 0x80000000), some (.utf8 "a/b"), some (.string 4), some (.classRef 4)]⟩) := by
    decide +kernel
  have hperm := (List.reverse_perm [Addition.classNamed "a.b", .string "a/b", .float 0,
    .float 0x80000000, .long 7]).symm
  exact ⟨hrun, hreversed, (outcome_of_perm hperm (by simp)).2 _ _ _ _ hrun hreversed⟩

end ConstantPool

end Bytecode
