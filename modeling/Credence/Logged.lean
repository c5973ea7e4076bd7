/-!
# Logged computations

A computation that may fail and leaves notes on the way. The notes are part of the outcome, whether
it fails or not. Leaving them out turns it into a plain computation, step by step.
-/

namespace Credence

/-- The notes of a computation in order, and its result or why there is none. -/
structure Logged (ν ε α : Type) where
  notes : List ν
  result : Except ε α

namespace Logged

variable {ν ε ε' α β : Type}

def leave (notes : List ν) : Logged ν ε Unit := ⟨notes, .ok ()⟩

/-- A computation that leaves no notes. -/
def silent (x : Except ε α) : Logged ν ε α := ⟨[], x⟩

/-- Leaves the notes of the first computation, and if it succeeds, those of the next one after
them. -/
def andThen (x : Logged ν ε α) (f : α → Logged ν ε β) : Logged ν ε β :=
  match x with
  | ⟨notes, .ok a⟩ => ⟨notes ++ (f a).notes, (f a).result⟩
  | ⟨notes, .error e⟩ => ⟨notes, .error e⟩

instance : Monad (Logged ν ε) where
  pure a := ⟨[], .ok a⟩
  bind := andThen

instance : LawfulMonad (Logged ν ε) := by
  refine LawfulMonad.mk' _ ?_ ?_ ?_
  · rintro α ⟨notes, e | a⟩
    · rfl
    · simp [Functor.map, andThen]
  · intro α β a f
    simp [bind, pure, andThen]
  · rintro α β γ ⟨notes, e | a⟩ f g
    · rfl
    · simp only [bind, andThen]
      rcases f a with ⟨notes', e | b⟩ <;> simp

def fail (e : ε) : Logged ν ε α := ⟨[], .error e⟩

def mapError (f : ε → ε') (x : Logged ν ε α) : Logged ν ε' α :=
  ⟨x.notes, x.result.mapError f⟩

/-! ## The result without the notes -/

@[simp] theorem result_leave (notes : List ν) : (leave notes : Logged ν ε Unit).result = .ok () :=
  rfl

@[simp] theorem result_silent (x : Except ε α) : (silent x : Logged ν ε α).result = x := rfl

@[simp] theorem result_fail (e : ε) : (fail e : Logged ν ε α).result = .error e := rfl

@[simp] theorem result_pure (a : α) : (pure a : Logged ν ε α).result = .ok a := rfl

@[simp] theorem result_mapError (f : ε → ε') (x : Logged ν ε α) :
    (x.mapError f).result = x.result.mapError f := rfl

@[simp] theorem result_bind (x : Logged ν ε α) (f : α → Logged ν ε β) :
    (x >>= f).result = x.result >>= fun a => (f a).result := by
  obtain ⟨notes, e | a⟩ := x <;> rfl

@[simp] theorem result_map (f : α → β) (x : Logged ν ε α) :
    (f <$> x).result = f <$> x.result := by
  obtain ⟨notes, e | a⟩ := x <;> rfl

theorem result_mapM (f : α → Logged ν ε β) (xs : List α) :
    (xs.mapM f).result = xs.mapM fun x => (f x).result := by
  induction xs with
  | nil => rfl
  | cons x xs ih => simp [List.mapM_cons, ih]

end Logged
end Credence
