/-!
# What all modules build on

Powers with a natural exponent are those of the core library, whatever else a module imports. Vectors
are read and written at indices that are in range by their type, so neither takes a proof. A sequence of
steps that may fail succeeds when each of its steps does.
-/

attribute [instance (high)] instPowNat
attribute [default_instance 10001] instPowNat

namespace Vector

variable {α β γ : Type} {n : Nat}

instance getElemFin : GetElem (Vector α n) (Fin n) α fun _ _ => True where
  getElem v i _ := v.get i

/-- The vector with another value at one index. -/
def put (v : Vector α n) (i : Fin n) (a : α) : Vector α n := v.set i a

theorem at_eq (v : Vector α n) (i : Fin n) : v[i] = v[i.val] := rfl

theorem ext_at {v w : Vector α n} (same : ∀ i : Fin n, v[i] = w[i]) : v = w :=
  Vector.ext fun i inside => same ⟨i, inside⟩

@[simp] theorem at_mem (v : Vector α n) (i : Fin n) : v[i] ∈ v := Vector.getElem_mem i.isLt

@[simp] theorem at_put (v : Vector α n) (i j : Fin n) (a : α) : (v.put i a)[j] = if j = i then a else v[j] := by
  simp only [at_eq, put, Vector.getElem_set, Fin.ext_iff, eq_comm]

@[simp] theorem put_at (v : Vector α n) (i : Fin n) : v.put i v[i] = v := by
  apply ext_at
  intro j
  by_cases same : j = i
  · simp [same]
  · simp [same]

@[simp] theorem put_put (v : Vector α n) (i : Fin n) (a b : α) : (v.put i a).put i b = v.put i b := by
  apply ext_at
  intro j
  by_cases same : j = i
  · simp [same]
  · simp [same]

theorem toList_at (v : Vector α n) (i : Fin n) : v.toList[i.val]? = some v[i] := by
  rw [Vector.getElem?_toList, Vector.getElem?_eq_getElem i.isLt, at_eq]

@[simp] theorem at_ofFn (entry : Fin n → α) (i : Fin n) : (Vector.ofFn entry)[i] = entry i := by
  rw [at_eq, Vector.getElem_ofFn]

@[simp] theorem at_map (f : α → β) (v : Vector α n) (i : Fin n) : (v.map f)[i] = f v[i] := by
  rw [at_eq, Vector.getElem_map, at_eq]

@[simp] theorem at_zipWith (f : α → β → γ) (v : Vector α n) (w : Vector β n) (i : Fin n) :
    (Vector.zipWith f v w)[i] = f v[i] w[i] := by
  rw [at_eq, Vector.getElem_zipWith, at_eq, at_eq]

@[simp] theorem at_replicate (a : α) (i : Fin n) : (Vector.replicate n a)[i] = a := by
  rw [at_eq, Vector.getElem_replicate]

end Vector

namespace Except

variable {ε δ α β : Type} {result : Except ε α} {value : α}

@[simp] theorem bind_eq_ok {rest : α → Except ε β} {final : β} :
    result >>= rest = .ok final ↔ ∃ value, result = .ok value ∧ rest value = .ok final := by
  cases result <;> simp [bind, Except.bind]

theorem toOption_eq_some_iff : result.toOption = some value ↔ result = .ok value := by
  cases result with
  | ok _ => exact ⟨fun same => congrArg ok (Option.some.inj same), fun same => congrArg some (ok.inj same)⟩
  | error _ => exact ⟨nofun, nofun⟩

theorem ok_bind {rest : α → Except ε β} : (ok value : Except ε α) >>= rest = rest value := rfl

@[simp] theorem pure_eq_ok {other : α} : (pure other : Except ε α) = .ok value ↔ other = value := by
  simp [pure, Except.pure]

@[simp] theorem mapError_eq_ok {cause : ε → δ} : result.mapError cause = .ok value ↔ result = .ok value := by
  cases result with
  | ok _ => exact ⟨fun same => congrArg ok (ok.inj same), fun same => congrArg ok (ok.inj same)⟩
  | error _ => exact ⟨nofun, nofun⟩

@[simp] theorem throw_ne_ok {cause : ε} : (throw cause : Except ε α) ≠ .ok value := nofun

/-- A guard lets pass what does not meet its condition. -/
@[simp] theorem guard_eq_ok {p : Prop} [Decidable p] {cause : ε} {rest : β → Except ε α} :
    (if p then throw cause >>= rest else result) = .ok value ↔ ¬ p ∧ result = .ok value := by
  by_cases met : p <;> simp [met]

end Except
