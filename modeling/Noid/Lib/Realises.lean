import Noid.Lib.Checked

/-! # Machines that realise specifications

A specification gives an optional result, a machine a state or an error.  The machine realises the specification when both
succeed with related results or both fail, the machine with an admissible error. -/

namespace Noid.Lib

variable {ε α β σ τ : Type} {fault : ε → Prop} {post : α → σ → Prop} {o : Option α} {x : Except ε σ}

/-- The outcome of a machine against that of a specification. -/
def Realises (fault : ε → Prop) (post : α → σ → Prop) : Option α → Except ε σ → Prop
  | some a, .ok s => post a s
  | none, .error e => fault e
  | _, _ => False

lemma realises_some {a : α} : Realises fault post (some a) x ↔ ∃ s, x = .ok s ∧ post a s := by
  cases x with
  | error e => simp [Realises]
  | ok s => simp [Realises]

lemma realises_none : Realises fault post none x ↔ ∃ e, x = .error e ∧ fault e := by
  cases x with
  | error e => simp [Realises]
  | ok s => simp [Realises]

namespace Realises

lemma bind {post' : β → τ → Prop} {f : α → Option β} {g : σ → Except ε τ} (h : Realises fault post o x)
    (hnext : ∀ a s, o = some a → post a s → Realises fault post' (f a) (g s)) :
    Realises fault post' (o.bind f) (x >>= g) := by
  cases o with
  | none =>
    obtain ⟨e, rfl, he⟩ := realises_none.mp h
    exact he
  | some a =>
    obtain ⟨s, rfl, hs⟩ := realises_some.mp h
    exact hnext a s rfl hs

/-- A total continuation of the specification that the machine needs no step for. -/
theorem bind_spec {post' : β → σ → Prop} {f : α → Option β} (h : Realises fault post o x)
    (hnext : ∀ a s, o = some a → post a s → ∃ b, f a = some b ∧ post' b s) :
    Realises fault post' (o.bind f) x := by
  cases o with
  | none =>
    obtain ⟨e, rfl, he⟩ := realises_none.mp h
    exact he
  | some a =>
    obtain ⟨s, rfl, hs⟩ := realises_some.mp h
    obtain ⟨b, hb, hpost⟩ := hnext a s rfl hs
    rw [Option.bind_some, hb]
    exact hpost

lemma of_map {f : α → β} {post : β → σ → Prop} (h : Realises fault post (o.map f) x) :
    Realises fault (fun a s => post (f a) s) o x := by
  cases o <;> cases x <;> exact h

/-- What is read off the result of the machine. -/
theorem map {post' : α → τ → Prop} {g : σ → τ} (h : Realises fault post o x) (hpost : ∀ a s, post a s → post' a (g s)) :
    Realises fault post' o (x.map g) := by
  cases o with
  | none =>
    obtain ⟨e, rfl, he⟩ := realises_none.mp h
    exact he
  | some a =>
    obtain ⟨s, rfl, hs⟩ := realises_some.mp h
    exact hpost a s hs

lemma mono {post' : α → σ → Prop} (h : Realises fault post o x) (hpost : ∀ a s, post a s → post' a s) :
    Realises fault post' o x := by
  cases o with
  | none =>
    obtain ⟨e, rfl, he⟩ := realises_none.mp h
    exact he
  | some a =>
    obtain ⟨s, rfl, hs⟩ := realises_some.mp h
    exact hpost a s hs

/-- A machine that realises a specification succeeds exactly when the specification does. -/
theorem ok_iff {s : σ} (h : Realises fault post o x) (hpost : ∀ a s s', post a s → post a s' → s = s') :
    x = .ok s ↔ ∃ a, o = some a ∧ post a s := by
  cases o with
  | none =>
    obtain ⟨e, rfl, -⟩ := realises_none.mp h
    simp
  | some a =>
    obtain ⟨s', rfl, hs⟩ := realises_some.mp h
    constructor
    · rintro ⟨⟩
      exact ⟨a, rfl, hs⟩
    · rintro ⟨_, ⟨⟩, hs'⟩
      rw [hpost a s s' hs' hs]

lemma fault_of_error {e : ε} (h : Realises fault post o x) (hx : x = .error e) : fault e := by
  cases o with
  | none =>
    obtain ⟨e', rfl, he⟩ := realises_none.mp h
    cases hx
    exact he
  | some a =>
    obtain ⟨s, rfl, -⟩ := realises_some.mp h
    cases hx

end Realises

end Noid.Lib
