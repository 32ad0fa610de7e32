import Bytecode.Proofs.Constant.Resolution
import Bytecode.Proofs.ConstantPool.Growth
import Mathlib.Control.Monad.Basic

/-!
# What is added is loaded

The index of an added text object, integer or class loads just that: the text itself, although
interning may have found an older text object or class, pushed before the text it refers to was
there; and the class of the name, although its dots were written as slashes. Later additions
change no outcome of a resolution, except that what was missing may turn up.

## Main results

* `ConstantPool.constantAt_of_refer`: a text, and what refers to it
* `ConstantPool.GrowsTo.extends_source`: a pool that grows keeps all its constants
* `ConstantPool.loaded_of_leadsTo`: what is loaded after an addition, from then on
-/

namespace Bytecode.ConstantPool

variable {pool pool' added later : ConstantPool} {index : UInt16}

/-- **A text and what refers to it** stand in the pool after both are interned. -/
theorem constantAt_of_refer {text : String} {refer : UInt16 → Constant}
    (hzero : ∀ index, (refer index).oppositeZero? = none)
    (h : (addUtf8 text >>= fun index => intern (refer index)).runOn pool = (.ok index, pool')) :
    ∃ textIndex, pool'.constantAt index = some (refer textIndex) ∧
      pool'.constantAt textIndex = some (.utf8 text) := by
  obtain ⟨textIndex, middle, htext, hrefer⟩ := Building.runOn_bind_eq_ok h
  have hmiddle : middle.constantAt textIndex = some (.utf8 text) :=
    constantAt_of_intern_of_ne_zero rfl htext
  exact ⟨textIndex, constantAt_of_intern_of_ne_zero (hzero textIndex) hrefer,
    (GrowsTo.of_intern hrefer).constantAt_eq_some hmiddle⟩

/-- **A pool that grows** keeps all its constants. -/
theorem GrowsTo.extends_source (h : pool.GrowsTo pool') : pool.source.Extends pool'.source :=
  fun _ _ hconstant => h.constantAt_eq_some hconstant

/-- **What is added is loaded**, whatever the pool was and whatever is added to it later. From
then on no settled outcome changes, for any reference. -/
theorem loaded_of_leadsTo (hlater : added.LeadsTo later) :
    (∀ text, (addString text).runOn pool = (.ok index, added) →
      (ConstantRef.ofIndex index).Loads later.source (.string text) .stringObject) ∧
    (∀ value, (addInteger value).runOn pool = (.ok index, added) →
      (ConstantRef.ofIndex index).Loads later.source (.int value) .int) ∧
    (∀ name, (addClass name).runOn pool = (.ok index, added) →
      (ConstantRef.ofIndex index).Loads later.source (.classObject (.ofText name)) .classObject) ∧
    (∀ text, (addUtf8 text).runOn pool = (.ok index, added) →
      later.source.utf8 index = .ok text) ∧
    (∀ value, (addLong value).runOn pool = (.ok index, added) →
      later.constantAt index = some (.long value)) ∧
    (∀ ref : ConstantRef, Settled (ref.value added.source) →
      ref.value later.source = ref.value added.source) ∧
    ∀ ref : ConstantRef, Settled (ref.type added.source) →
      ref.type later.source = ref.type added.source := by
  have hextends := hlater.growsTo.extends_source
  -- the index of a constant that is no zero still gives that constant
  have hkept : ∀ {constant : Constant}, constant.oppositeZero? = none →
      (intern constant).runOn pool = (.ok index, added) →
      later.source.constantAt index = some constant := fun hzero hadd =>
    hextends _ _ (constantAt_of_intern_of_ne_zero hzero hadd)
  have href : later.source.constantAt (ConstantRef.ofIndex index).index =
      later.source.constantAt index := by
    rw [ConstantRef.index_ofIndex]
  refine ⟨fun text hadd => ?_, fun value hadd => ?_, fun name hadd => ?_, fun text hadd => ?_,
    fun value hadd => hkept rfl hadd, fun ref => ConstantRef.value_eq_of_extends hextends,
    fun ref => ConstantRef.type_eq_of_extends hextends⟩
  · obtain ⟨textIndex, hstring, htext⟩ := constantAt_of_refer (fun _ => rfl) hadd
    exact ConstantRef.loads_string (href.trans (hextends _ _ hstring)) (hextends _ _ htext)
  · exact ConstantRef.loads_integer (href.trans (hkept rfl hadd))
  · obtain ⟨textIndex, hclass, htext⟩ := constantAt_of_refer (fun _ => rfl) hadd
    rw [← ClassName.ofText_replace name]
    exact ConstantRef.loads_classRef (href.trans (hextends _ _ hclass)) (hextends _ _ htext)
  · exact ConstantSource.utf8_of_some (hkept rfl hadd)

/-- A text object that was pushed before its text is found again, and a class is named with dots
and slashes. In both runs a long is added later. -/
theorem loaded_of_leadsTo_earlier :
    (addString "x").runOn ⟨#[none, some (.string 2)]⟩ =
        (.ok 1, ⟨#[none, some (.string 2), some (.utf8 "x")]⟩) ∧
      (ConstantRef.ofIndex 1).Loads
        (source ⟨#[none, some (.string 2), some (.utf8 "x"), some (.long 5), none]⟩)
        (.string "x") (.object (.ofText "java.lang.String")) ∧
      (addClass "a.b/c").runOn new =
        (.ok 2, ⟨#[none, some (.utf8 "a/b/c"), some (.classRef 1)]⟩) ∧
      (ConstantRef.ofIndex 2).Loads
        (source ⟨#[none, some (.utf8 "a/b/c"), some (.classRef 1), some (.long 5), none]⟩)
        (.classObject (.ofText "a.b/c")) (.object (.ofText "java.lang.Class")) := by
  have hstring : (addString "x").runOn ⟨#[none, some (.string 2)]⟩ =
      (.ok 1, ⟨#[none, some (.string 2), some (.utf8 "x")]⟩) := by decide +kernel
  have hclass : (addClass "a.b/c").runOn new =
      (.ok 2, ⟨#[none, some (.utf8 "a/b/c"), some (.classRef 1)]⟩) := by decide +kernel
  refine ⟨hstring, ?_, hclass, ?_⟩
  · have hlater : LeadsTo ⟨#[none, some (.string 2), some (.utf8 "x")]⟩
        ⟨#[none, some (.string 2), some (.utf8 "x"), some (.long 5), none]⟩ :=
      ⟨[.long 5], [3], by decide +kernel⟩
    exact (loaded_of_leadsTo hlater).1 "x" hstring
  · have hlater : LeadsTo ⟨#[none, some (.utf8 "a/b/c"), some (.classRef 1)]⟩
        ⟨#[none, some (.utf8 "a/b/c"), some (.classRef 1), some (.long 5), none]⟩ :=
      ⟨[.long 5], [3], by decide +kernel⟩
    exact (loaded_of_leadsTo hlater).2.2.1 "a.b/c" hclass

end Bytecode.ConstantPool
