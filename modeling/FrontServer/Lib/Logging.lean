import Mathlib

/-!
# Computations that write a log

A computation that can fail and writes entries as it goes. Forgetting the entries (`erase`) is a map of monads, so that a program
with its log is compared to the same program without one call by call, and `run_bind_eq_ok` takes a log apart at the calls it was
written by.
-/

namespace FrontServer

/-- A computation with results in `α` and failures in `ε` that writes entries of type `ω`. -/
abbrev Logged (ω ε α : Type) := WriterT (List ω) (Except ε) α

namespace Logged

variable {ω ε α β : Type}

/-- The computation without what it writes. -/
def erase (x : Logged ω ε α) : Except ε α := x.run.map Prod.fst

/-- A result without its log is the result. -/
@[simp] theorem erase_pure (a : α) : (pure a : Logged ω ε α).erase = .ok a := rfl

/-- Writing is nothing when the log is left out. -/
@[simp] theorem erase_tell (w : List ω) : (tell w : Logged ω ε PUnit).erase = .ok ⟨⟩ := rfl

/-- A computation that writes nothing is itself. -/
@[simp] theorem erase_lift (x : Except ε α) : (liftM x : Logged ω ε α).erase = x := by
  cases x with
  | error e => rfl
  | ok a => rfl

/-- Computations in turn stay computations in turn. -/
@[simp] theorem erase_bind (x : Logged ω ε α) (f : α → Logged ω ε β) :
    (x >>= f).erase = x.erase >>= fun a => (f a).erase := by
  have hrun : (x >>= f).run = x.run >>= fun p => (fun q => (q.1, p.2 ++ q.2)) <$> (f p.1).run := rfl
  unfold erase
  rw [hrun]
  cases x.run with
  | error e => rfl
  | ok p =>
    change ((fun q => (q.1, p.2 ++ q.2)) <$> (f p.1).run).map Prod.fst = (f p.1).run.map Prod.fst
    cases (f p.1).run with
    | error e => rfl
    | ok q => rfl

/-- A choice stays a choice. -/
@[simp] theorem erase_ite (c : Prop) [Decidable c] (x y : Logged ω ε α) :
    (if c then x else y).erase = if c then x.erase else y.erase := by
  split
  · rfl
  · rfl

/-- What a computation that succeeded gives is what it gives without its log. -/
theorem erase_eq_ok {x : Logged ω ε α} {a : α} : x.erase = .ok a ↔ ∃ w, x.run = .ok (a, w) := by
  unfold erase
  cases x.run with
  | error e => simp [Except.map]
  | ok p =>
    obtain ⟨a', w'⟩ := p
    simp [Except.map]

/-- A result comes with an empty log. -/
theorem run_pure_eq_ok {a b : α} {w : List ω} : (pure a : Logged ω ε α).run = .ok (b, w) ↔ b = a ∧ w = [] := by
  change Except.ok (a, []) = Except.ok (b, w) ↔ _
  simp [eq_comm]

/-- Writing gives what is written. -/
theorem run_tell_eq_ok {v w : List ω} {u : PUnit} : (tell v : Logged ω ε PUnit).run = .ok (u, w) ↔ w = v := by
  change Except.ok (⟨⟩, v) = Except.ok (u, w) ↔ _
  simp [eq_comm]

/-- What writes nothing comes with an empty log. -/
theorem run_lift_eq_ok {x : Except ε α} {a : α} {w : List ω} : (liftM x : Logged ω ε α).run = .ok (a, w) ↔ x = .ok a ∧ w = [] := by
  cases x with
  | error e =>
    change Except.error e = Except.ok (a, w) ↔ _
    simp
  | ok b =>
    change Except.ok (b, []) = Except.ok (a, w) ↔ _
    simp [eq_comm]

/-- What comes behind a computation matters only on what that can give. -/
theorem bind_congr_of_erase {x : Logged ω ε α} {f g : α → Logged ω ε β} (h : ∀ a, x.erase = .ok a → f a = g a) : x >>= f = x >>= g := by
  have hrun : ∀ k : α → Logged ω ε β, (x >>= k).run = x.run >>= fun p => (fun q => (q.1, p.2 ++ q.2)) <$> (k p.1).run := fun _ => rfl
  refine WriterT.ext _ _ ?_
  rw [hrun, hrun]
  cases hx : x.run with
  | error e => rfl
  | ok p =>
    have hp : f p.1 = g p.1 := h p.1 (erase_eq_ok.mpr ⟨p.2, hx⟩)
    change (fun q => (q.1, p.2 ++ q.2)) <$> (f p.1).run = (fun q => (q.1, p.2 ++ q.2)) <$> (g p.1).run
    rw [hp]

/-- Two computations in a row write one log behind the other. -/
theorem run_bind_eq_ok {x : Logged ω ε α} {f : α → Logged ω ε β} {b : β} {w : List ω} :
    (x >>= f).run = .ok (b, w) ↔ ∃ a v v', x.run = .ok (a, v) ∧ (f a).run = .ok (b, v') ∧ w = v ++ v' := by
  have hrun : (x >>= f).run = x.run >>= fun p => (fun q => (q.1, p.2 ++ q.2)) <$> (f p.1).run := rfl
  rw [hrun]
  cases x.run with
  | error e =>
    constructor
    · nofun
    · rintro ⟨a, v, v', h, -⟩
      cases h
  | ok p =>
    change (fun q => (q.1, p.2 ++ q.2)) <$> (f p.1).run = .ok (b, w) ↔ _
    cases hf : (f p.1).run with
    | error e =>
      constructor
      · nofun
      · rintro ⟨a, v, v', h, h', -⟩
        cases h
        rw [hf] at h'
        cases h'
    | ok q =>
      constructor
      · intro h
        cases h
        exact ⟨p.1, p.2, q.2, rfl, hf, rfl⟩
      · rintro ⟨a, v, v', h, h', rfl⟩
        cases h
        rw [hf] at h'
        cases h'
        rfl

/-- What is only made of the result writes nothing. -/
theorem run_bind_pure (x : Logged ω ε α) (g : α → β) : (x >>= fun a => pure (g a)).run = x.run.map fun r => (g r.1, r.2) := by
  change x.run >>= _ = _
  cases x.run with
  | error e => rfl
  | ok r =>
    change Except.ok (g r.1, r.2 ++ []) = Except.ok (g r.1, r.2)
    rw [List.append_nil]

/-- A computation that writes nothing, in front of one that does. -/
theorem run_lift_bind_eq_ok {x : Except ε α} {f : α → Logged ω ε β} {b : β} {w : List ω} :
    ((liftM x : Logged ω ε α) >>= f).run = .ok (b, w) ↔ ∃ a, x = .ok a ∧ (f a).run = .ok (b, w) := by
  rw [run_bind_eq_ok]
  constructor
  · rintro ⟨a, v, v', hx, hf, rfl⟩
    obtain ⟨ha, rfl⟩ := run_lift_eq_ok.mp hx
    exact ⟨a, ha, hf⟩
  · rintro ⟨a, hx, hf⟩
    exact ⟨a, [], w, run_lift_eq_ok.mpr ⟨hx, rfl⟩, hf, rfl⟩

/-- Entries written in front of what a computation writes. -/
theorem run_tell_bind_eq_ok {v : List ω} {f : PUnit → Logged ω ε β} {b : β} {w : List ω} :
    ((tell v : Logged ω ε PUnit) >>= f).run = .ok (b, w) ↔ ∃ v', (f ⟨⟩).run = .ok (b, v') ∧ w = v ++ v' := by
  rw [run_bind_eq_ok]
  constructor
  · rintro ⟨a, u, v', hu, hf, rfl⟩
    rw [run_tell_eq_ok.mp hu]
    exact ⟨v', hf, rfl⟩
  · rintro ⟨v', hf, rfl⟩
    exact ⟨⟨⟩, v, v', run_tell_eq_ok.mpr rfl, hf, rfl⟩

/-- Entries written at the end. -/
theorem run_tell_pure_eq_ok {v : List ω} {a b : β} {w : List ω} :
    ((tell v : Logged ω ε PUnit) >>= fun _ => pure a).run = .ok (b, w) ↔ b = a ∧ w = v := by
  rw [run_tell_bind_eq_ok]
  constructor
  · rintro ⟨v', hf, rfl⟩
    obtain ⟨rfl, rfl⟩ := run_pure_eq_ok.mp hf
    exact ⟨rfl, List.append_nil v⟩
  · rintro ⟨rfl, rfl⟩
    exact ⟨[], run_pure_eq_ok.mpr ⟨rfl, rfl⟩, (List.append_nil w).symm⟩

/-! ## Logs of one kind -/

/-- A computation writes only entries of a kind. -/
def Only (p : ω → Prop) (x : Logged ω ε α) : Prop := ∀ a w, x.run = .ok (a, w) → ∀ e ∈ w, p e

variable {p : ω → Prop}

/-- A result writes nothing. -/
theorem only_pure (a : α) : Only p (pure a : Logged ω ε α) := by
  intro b w h
  obtain ⟨-, rfl⟩ := run_pure_eq_ok.mp h
  exact List.forall_mem_nil _

/-- Writing such entries writes only such. -/
theorem only_tell {v : List ω} (hv : ∀ e ∈ v, p e) : Only p (tell v : Logged ω ε PUnit) := by
  intro u w h
  rw [run_tell_eq_ok.mp h]
  exact hv

/-- What has no log writes nothing. -/
theorem only_lift (x : Except ε α) : Only p (liftM x : Logged ω ε α) := by
  intro a w h
  obtain ⟨-, rfl⟩ := run_lift_eq_ok.mp h
  exact List.forall_mem_nil _

/-- Computations in turn write only what each of them does. -/
theorem Only.bind {x : Logged ω ε α} {f : α → Logged ω ε β} (hx : Only p x) (hf : ∀ a, Only p (f a)) : Only p (x >>= f) := by
  intro b w h
  obtain ⟨a, v, v', hv, hv', rfl⟩ := run_bind_eq_ok.mp h
  intro e he
  rcases List.mem_append.mp he with he | he
  · exact hx a v hv e he
  · exact hf a b v' hv' e he

/-- So does a choice. -/
theorem Only.ite {c : Prop} [Decidable c] {x y : Logged ω ε α} (hx : Only p x) (hy : Only p y) : Only p (if c then x else y) := by
  split
  · exact hx
  · exact hy

end Logged

end FrontServer
