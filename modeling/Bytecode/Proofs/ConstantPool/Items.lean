import Bytecode.Proofs.Constant.Agreement
import Mathlib.Algebra.GroupWithZero.Nat

/-!
# Items of a pool

An item is what an addition asks a pool for: a value, or what refers to a text. Which index a text
has depends on what was added before it, but the text itself does not; so an item names the text.
Items are asked for one after another, and an item that shares the place of an earlier one takes
none of its own. How many indices are taken in the end does not depend on the order, although it is
the first of the items sharing a place that stays.

## Main definitions

* `Item`, `Item.shares`: what is asked for, and what shares a place
* `Item.put`, `Item.total`: the items held after one more is asked for, and the indices they take
* `Item.Alike`: items between which later ones make no difference

## Main results

* `Item.hasPlace_put`, `Item.total_put`: what one more item changes
* `Item.alike_swap`, `Item.alike_of_perm`: the order of items does not matter
-/

namespace Bytecode

/-! ## Items -/

theorem Constant.slots_eq_of_agrees {a b : Constant} (h : a.agrees b = true) :
    a.slots = b.slots := by
  rcases (agrees_iff a b).mp h with ⟨rfl, -⟩ | hzero
  · rfl
  · cases b with
    | float bits =>
      obtain ⟨other, rfl⟩ := exists_of_oppositeZero?_float hzero
      rfl
    | double bits =>
      obtain ⟨other, rfl⟩ := exists_of_oppositeZero?_double hzero
      rfl
    | _ => cases hzero

/-- **An item**: a value, or what refers to a text, which is known by its kind and this text. -/
inductive Item where
  | value (constant : Constant)
  | reference (kind : Tag) (text : String)

namespace Item

variable {a b c item : Item} {held other : List Item}

/-- The number of indices an item takes up. -/
def slots : Item → Nat
  | value constant => constant.slots
  | reference _ _ => 1

/-- **Two items share a place**: their values agree, or they refer to the same text alike. -/
def shares : Item → Item → Bool
  | value a, value b => a.agrees b
  | reference kind text, reference kind' text' => decide (kind = kind' ∧ text = text')
  | _, _ => false

theorem shares_symm (h : a.shares b = true) : b.shares a = true := by
  cases a with
  | value x =>
    cases b with
    | value y => exact Constant.agrees_symm h
    | reference _ _ => cases h
  | reference kind text =>
    cases b with
    | value y => cases h
    | reference _ _ =>
      obtain ⟨rfl, rfl⟩ := of_decide_eq_true h
      exact h

theorem shares_trans (hab : a.shares b = true) (hbc : b.shares c = true) :
    a.shares c = true := by
  cases b with
  | value y =>
    cases a with
    | value x =>
      cases c with
      | value z => exact Constant.agrees_trans hab hbc
      | reference _ _ => cases hbc
    | reference _ _ => cases hab
  | reference kind text =>
    cases a with
    | value x => cases hab
    | reference _ _ =>
      obtain ⟨rfl, rfl⟩ := of_decide_eq_true hab
      exact hbc

theorem slots_eq_of_shares (h : a.shares b = true) : a.slots = b.slots := by
  cases a with
  | value x =>
    cases b with
    | value y => exact Constant.slots_eq_of_agrees h
    | reference _ _ => cases h
  | reference kind text =>
    cases b with
    | value y => cases h
    | reference _ _ => rfl

/-! ## Items asked for one after another -/

/-- An item has a place among those held. -/
def hasPlace (held : List Item) (item : Item) : Bool := held.any (·.shares item)

/-- **The items held after one more is asked for**: it comes last, unless it has a place already. -/
def put (held : List Item) (item : Item) : List Item :=
  if hasPlace held item then held else held ++ [item]

/-- The number of indices that items take up. -/
def total (held : List Item) : Nat := (held.map slots).sum

theorem hasPlace_iff : hasPlace held item = true ↔ ∃ found ∈ held, found.shares item = true :=
  List.any_eq_true

/-- An item has a place exactly if one that shares its place has. -/
theorem hasPlace_eq_of_shares (h : a.shares b = true) : hasPlace held a = hasPlace held b := by
  rw [Bool.eq_iff_iff, hasPlace_iff, hasPlace_iff]
  constructor
  · rintro ⟨found, hmem, hfound⟩
    exact ⟨found, hmem, shares_trans hfound h⟩
  · rintro ⟨found, hmem, hfound⟩
    exact ⟨found, hmem, shares_trans hfound (shares_symm h)⟩

/-- **Who has a place after one more is asked for**: whoever had one, and whoever shares the new
one. -/
theorem hasPlace_put (held : List Item) (a b : Item) :
    hasPlace (put held a) b = (hasPlace held b || a.shares b) := by
  unfold put
  split
  · next hplace =>
    -- what shares the place of the item had one before
    cases hshares : a.shares b with
    | false => rw [Bool.or_false]
    | true => rw [← hasPlace_eq_of_shares hshares, hplace, Bool.or_true]
  · rw [hasPlace, List.any_append, List.any_cons, List.any_nil, Bool.or_false]
    rfl

theorem total_put (held : List Item) (item : Item) :
    total (put held item) = total held + if hasPlace held item then 0 else item.slots := by
  unfold put
  split
  · rfl
  · rw [total, List.map_append, List.sum_append]
    rfl

theorem total_le_foldl (items : List Item) (held : List Item) :
    total held ≤ total (items.foldl put held) := by
  induction items generalizing held with
  | nil => exact Nat.le_refl _
  | cons item rest ih =>
    refine Nat.le_trans ?_ (ih (put held item))
    rw [total_put]
    exact Nat.le_add_right _ _

/-! ## The order of items -/

/-- **Alike**: items that take up as many indices, and give a place to the same others. -/
structure Alike (held other : List Item) : Prop where
  total_eq : total held = total other
  hasPlace_eq : ∀ item, hasPlace held item = hasPlace other item

theorem Alike.refl (held : List Item) : Alike held held := ⟨rfl, fun _ => rfl⟩

theorem Alike.trans {last : List Item} (h : Alike held other) (h' : Alike other last) :
    Alike held last :=
  ⟨h.total_eq.trans h'.total_eq, fun item => (h.hasPlace_eq item).trans (h'.hasPlace_eq item)⟩

/-- Items stay alike when both sides are asked for one more. -/
theorem Alike.put (h : Alike held other) (item : Item) :
    Alike (Item.put held item) (Item.put other item) where
  total_eq := by rw [total_put, total_put, h.total_eq, h.hasPlace_eq]
  hasPlace_eq later := by rw [hasPlace_put, hasPlace_put, h.hasPlace_eq]

theorem Alike.foldl (h : Alike held other) (items : List Item) :
    Alike (items.foldl Item.put held) (items.foldl Item.put other) := by
  induction items generalizing held other with
  | nil => exact h
  | cons item rest ih => exact ih (h.put item)

/-- **Two items may change places**. If they share one, whichever comes first takes it, and they
take up as many indices; otherwise neither of them minds the other. -/
theorem alike_swap (held : List Item) (a b : Item) :
    Alike (put (put held a) b) (put (put held b) a) where
  total_eq := by
    rw [total_put, total_put, total_put, total_put, hasPlace_put, hasPlace_put]
    cases hshares : a.shares b with
    | true =>
      rw [shares_symm hshares, hasPlace_eq_of_shares hshares, slots_eq_of_shares hshares]
    | false =>
      have hother : b.shares a = false := by
        refine Bool.eq_false_iff.mpr ?_
        intro h
        rw [shares_symm h] at hshares
        cases hshares
      rw [hother, Bool.or_false, Bool.or_false]
      exact Nat.add_right_comm _ _ _
  hasPlace_eq item := by
    rw [hasPlace_put, hasPlace_put, hasPlace_put, hasPlace_put]
    exact Bool.or_right_comm _ _ _

/-- **The order of items does not matter**. -/
theorem alike_of_perm {items items' : List Item} (h : items.Perm items') (held : List Item) :
    Alike (items.foldl put held) (items'.foldl put held) := by
  -- by induction on the steps of the permutation, from whatever items are held
  induction h generalizing held with
  | nil => exact .refl held
  | cons item _ ih => exact ih (put held item)
  | swap a b rest => exact (alike_swap held b a).foldl rest
  | trans _ _ ih ih' => exact (ih held).trans (ih' held)

end Item

end Bytecode
