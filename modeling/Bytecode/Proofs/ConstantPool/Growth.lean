import Bytecode.Proofs.ConstantPool.Interning

/-!
# How a pool grows

Whatever is added to a pool, all that happens to the pool is that constants are appended at its
end. An addition that succeeds has appended constants that fit, two of them at most; an addition
that is refused has appended some that fit, and then a push was refused. What holds of a pool and
is kept by appending a constant that fits therefore holds after every run of additions.

## Main definitions

* `ConstantPool.GrowsTo`: constants that fit are appended
* `Addition`, `Addition.build`: the ways to add to a pool
* `ConstantPool.buildAll`, `ConstantPool.LeadsTo`: runs of additions, none of which is refused

## Main results

* `Addition.growsTo_of_ok`, `Addition.refused_push_of_error`: what an addition does
* `ConstantPool.buildAll_induction`: what every addition keeps is kept by a run
* `ConstantPool.pushTimes_eq`: filling a pool is a run of additions
* `ConstantPool.LeadsTo.growsTo`: what a run of additions does
-/

namespace Bytecode

namespace ConstantPool

/-- **A pool grows to another** by constants that are appended and fit. -/
inductive GrowsTo (pool : ConstantPool) : ConstantPool → Prop
  | refl : GrowsTo pool pool
  | append {middle : ConstantPool} (h : GrowsTo pool middle) (constant : Constant)
      (hroom : middle.size + constant.slots ≤ maxIndex) : GrowsTo pool (middle.append constant)

namespace GrowsTo

variable {pool middle pool' : ConstantPool}

theorem trans (h : pool.GrowsTo middle) (h' : middle.GrowsTo pool') : pool.GrowsTo pool' := by
  induction h' with
  | refl => exact h
  | append _ constant hroom ih => exact .append ih constant hroom

/-- **Entries stay** where they are. -/
theorem constantAt_eq_some (h : pool.GrowsTo pool') {index : UInt16} {constant : Constant}
    (hconstant : pool.constantAt index = some constant) :
    pool'.constantAt index = some constant := by
  induction h with
  | refl => exact hconstant
  | append _ appended _ ih => exact constantAt_append_of_some ih appended

theorem size_le (h : pool.GrowsTo pool') : pool.size ≤ pool'.size := by
  induction h with
  | refl => exact Nat.le_refl _
  | append _ constant _ ih =>
    rw [size_append]
    exact Nat.le_add_right_of_le ih

/-- Nothing below the size changes, be it a constant or empty. -/
theorem constantAt_of_lt_size (h : pool.GrowsTo pool') {index : UInt16}
    (hlt : index.toNat < pool.size) : pool'.constantAt index = pool.constantAt index := by
  induction h with
  | refl => rfl
  | append hgrown appended _ ih =>
    have hne : index.toNat ≠ _ := Nat.ne_of_lt (Nat.lt_of_lt_of_le hlt hgrown.size_le)
    rw [constantAt_append, if_neg hne, ih]

theorem size_le_maxIndex (h : pool.GrowsTo pool') (hsize : pool.size ≤ maxIndex) :
    pool'.size ≤ maxIndex := by
  induction h with
  | refl => exact hsize
  | append _ constant hroom _ =>
    rw [size_append]
    exact hroom

/-- A pool beyond the limit does not grow. -/
theorem eq_of_full (h : pool.GrowsTo pool') (hfull : maxIndex < pool.size) : pool' = pool := by
  cases h with
  | refl => rfl
  | append h constant hroom =>
    have := h.size_le
    omega

theorem of_push {constant : Constant} {index : UInt16}
    (h : (push constant).runOn pool = (.ok index, pool')) : pool.GrowsTo pool' := by
  obtain ⟨hroom, -, rfl⟩ := runOn_push_eq_ok_iff.mp h
  exact .append .refl constant hroom

theorem of_intern {constant : Constant} {index : UInt16}
    (h : (intern constant).runOn pool = (.ok index, pool')) : pool.GrowsTo pool' := by
  rcases runOn_intern_eq_ok_iff.mp h with ⟨-, rfl⟩ | ⟨-, hpush⟩
  · exact .refl
  · exact of_push hpush

end GrowsTo

end ConstantPool

open ConstantPool

/-! ## Additions -/

/-- **An addition** to a pool: a constant that is pushed, or a value that is interned. -/
inductive Addition where
  | push (constant : Constant)
  | utf8 (text : String)
  | integer (value : Int32)
  | float (bits : UInt32)
  | long (value : Int64)
  | double (bits : UInt64)
  | string (text : String)
  | classNamed (name : String)

namespace Addition

/-- The building step of an addition, which gives the index of what was added. -/
def build : Addition → Building UInt16
  | push constant => ConstantPool.push constant
  | utf8 text => addUtf8 text
  | integer value => addInteger value
  | float bits => addFloat bits
  | long value => addLong value
  | double bits => addDouble bits
  | string text => addString text
  | classNamed name => addClass name

/-- An addition pushes, or interns, or interns a text and then what refers to it. -/
theorem build_cases (addition : Addition) :
    (∃ constant, addition = push constant) ∨
      (∃ constant, addition.build = intern constant) ∨
        ∃ (text : String) (refer : UInt16 → Constant),
          addition.build = addUtf8 text >>= fun index => intern (refer index) := by
  cases addition with
  | push constant => exact .inl ⟨constant, rfl⟩
  | string text => exact .inr (.inr ⟨text, .string, rfl⟩)
  | classNamed name => exact .inr (.inr ⟨_, .classRef, rfl⟩)
  | _ => exact .inr (.inl ⟨_, rfl⟩)

variable {addition : Addition} {pool pool' : ConstantPool}

/-- **An addition that succeeds** has appended constants that fit. -/
theorem growsTo_of_ok {index : UInt16} (h : addition.build.runOn pool = (.ok index, pool')) :
    pool.GrowsTo pool' := by
  rcases addition.build_cases with
    ⟨constant, hbuild⟩ | ⟨constant, hbuild⟩ | ⟨text, refer, hbuild⟩
  all_goals rw [hbuild] at h
  · exact .of_push h
  · exact .of_intern h
  · obtain ⟨textIndex, middle, htext, hrefer⟩ := Building.runOn_bind_eq_ok h
    exact (GrowsTo.of_intern htext).trans (.of_intern hrefer)

/-- An addition that succeeds gives an index where a constant stands. -/
theorem exists_constantAt_of_ok {index : UInt16}
    (h : addition.build.runOn pool = (.ok index, pool')) :
    ∃ constant, pool'.constantAt index = some constant := by
  rcases addition.build_cases with
    ⟨constant, hbuild⟩ | ⟨constant, hbuild⟩ | ⟨text, refer, hbuild⟩
  all_goals rw [hbuild] at h
  · exact ⟨constant, constantAt_of_push h⟩
  · obtain ⟨kept, hkept, -⟩ := kept_of_intern h
    exact ⟨kept, hkept⟩
  · obtain ⟨textIndex, middle, -, hrefer⟩ := Building.runOn_bind_eq_ok h
    obtain ⟨kept, hkept, -⟩ := kept_of_intern hrefer
    exact ⟨kept, hkept⟩

/-- **An addition that is refused** has appended constants that fit, and then a push was
refused. -/
theorem refused_push_of_error {e : PoolError}
    (h : addition.build.runOn pool = (.error e, pool')) :
    ∃ middle constant, pool.GrowsTo middle ∧
      (ConstantPool.push constant).runOn middle = (.error e, pool') := by
  rcases addition.build_cases with
    ⟨constant, hbuild⟩ | ⟨constant, hbuild⟩ | ⟨text, refer, hbuild⟩
  all_goals rw [hbuild] at h
  · exact ⟨pool, constant, .refl, h⟩
  · exact ⟨pool, constant, .refl, (runOn_intern_eq_error_iff.mp h).2⟩
  · rcases Building.runOn_bind_eq_error h with htext | ⟨textIndex, middle, htext, hrefer⟩
    · exact ⟨pool, _, .refl, (runOn_intern_eq_error_iff.mp htext).2⟩
    · exact ⟨middle, _, .of_intern htext, (runOn_intern_eq_error_iff.mp hrefer).2⟩

end Addition

/-! ## Runs of additions -/

namespace ConstantPool

/-- **A run of additions**, which gives their indices. The first refusal ends the run. -/
def buildAll : List Addition → Building (List UInt16)
  | [] => return []
  | addition :: rest => do
    let index ← addition.build
    return index :: (← buildAll rest)

/-- **A pool leads to another** by a run of additions, none of which is refused. -/
def LeadsTo (pool pool' : ConstantPool) : Prop :=
  ∃ additions indices, (buildAll additions).runOn pool = (.ok indices, pool')

/-- **What every addition keeps** is kept by a run of them. -/
theorem buildAll_induction {kept : ConstantPool → Prop} {additions : List Addition}
    {pool pool' : ConstantPool} {indices : List UInt16}
    (hstep : ∀ addition ∈ additions, ∀ pool index pool', kept pool →
      addition.build.runOn pool = (.ok index, pool') → kept pool')
    (hrun : (buildAll additions).runOn pool = (.ok indices, pool')) (h : kept pool) :
    kept pool' := by
  -- by induction on the additions, on whatever pool the next one finds
  induction additions generalizing pool indices with
  | nil =>
    cases hrun
    exact h
  | cons addition rest ih =>
    obtain ⟨index, middle, hfirst, hrest⟩ := Building.runOn_bind_eq_ok hrun
    obtain ⟨indices, last, hrest, hreturn⟩ := Building.runOn_bind_eq_ok hrest
    cases hreturn
    obtain ⟨hnow, hlater⟩ := List.forall_mem_cons.mp hstep
    exact ih hlater hrest (hnow pool index middle h hfirst)

theorem foldlM_push_replicate (constant : Constant) (count : Nat) (last : Option UInt16) :
    (List.replicate count constant).foldlM
        (fun _ constant => (return some (← push constant) : Building (Option UInt16))) last =
      (fun indices => indices.getLast?.or last) <$>
        buildAll (List.replicate count (.push constant)) := by
  -- the index kept so far is given only if nothing is pushed any more
  induction count generalizing last with
  | zero => rfl
  | succ count ih =>
    rw [List.replicate_succ, List.replicate_succ, List.foldlM_cons, buildAll, bind_assoc, map_bind]
    refine congrArg (push constant >>= ·) (funext fun index => ?_)
    have hlast (indices : List UInt16) :
        (index :: indices).getLast?.or last = indices.getLast?.or (some index) := by
      rw [List.getLast?_cons, Option.some_or, Option.or_some]
    rw [pure_bind, ih]
    simp only [bind_pure_comp, Functor.map_map, hlast]

/-- **A pool is filled** by a run of additions, of which only the last index is kept. -/
theorem pushTimes_eq (constant : Constant) (count : Nat) :
    pushTimes constant count =
      List.getLast? <$> buildAll (List.replicate count (.push constant)) := by
  rw [pushTimes, foldlM_push_replicate]
  simp only [Option.or_none]

/-- **A run of additions** appends constants that fit. -/
theorem LeadsTo.growsTo {pool pool' : ConstantPool} (h : pool.LeadsTo pool') :
    pool.GrowsTo pool' := by
  obtain ⟨additions, indices, hrun⟩ := h
  refine buildAll_induction (fun addition _ middle index last hgrown hstep => ?_) hrun .refl
  exact hgrown.trans (addition.growsTo_of_ok hstep)

end ConstantPool

end Bytecode
