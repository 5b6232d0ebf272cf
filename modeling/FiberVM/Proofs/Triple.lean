import FiberVM.Engine.State
import Mathlib.Order.Defs.Unbundled

/-!
# Triples

What an operation does, started in a state that satisfies a precondition: if it succeeds, its result
and the new state satisfy the postcondition; if it fails, its error is an allowed one and the new
state satisfies the failure condition. Either way the new state is related to the old one, by a
relation that is reflexive and transitive.

The rules follow the shape of an operation: sequences, failures, and changes of the state.
-/

namespace FiberVM

/-- What an operation that was started in a state has come to: `R` relates old and new states, `E`
allows errors, and `Q` holds after a success and `F` after a failure. -/
def Outcome {ε σ α : Type} (R : σ → σ → Prop) (E : ε → Prop) (Q : α → σ → Prop) (F : σ → Prop)
    (s : σ) : EStateM.Result ε σ α → Prop
  | .ok a t => R s t ∧ Q a t
  | .error err t => R s t ∧ E err ∧ F t

/-- An operation that is started where `P` holds has an outcome as described. -/
def Triple {ε σ α : Type} (R : σ → σ → Prop) (E : ε → Prop) (P : σ → Prop) (m : EStateM ε σ α)
    (Q : α → σ → Prop) (F : σ → Prop) : Prop :=
  ∀ s, P s → Outcome R E Q F s (m s)

/-- A change of the state that turns one condition into another. -/
def Turns {σ : Type} (R : σ → σ → Prop) (P : σ → Prop) (f : σ → σ) (Q : σ → Prop) : Prop :=
  ∀ s, P s → R s (f s) ∧ Q (f s)

variable {ε σ α β : Type} {R : σ → σ → Prop} {E : ε → Prop} {P P' : σ → Prop}
  {Q Q' : α → σ → Prop} {T : β → σ → Prop} {F F' : σ → Prop} {m : EStateM ε σ α}

/-- After a success a sequence goes on with the result. -/
lemma bind_of_ok {k : α → EStateM ε σ β} {a s t} (first : m s = .ok a t) :
    (m >>= k) s = k a t := by
  change EStateM.bind m k s = k a t
  rw [EStateM.bind, first]

lemma bind_of_error {k : α → EStateM ε σ β} {err s t} (first : m s = .error err t) :
    (m >>= k) s = .error err t := by
  change EStateM.bind m k s = .error err t
  rw [EStateM.bind, first]

/-- Where a sequence succeeds, so do its parts. -/
lemma ok_of_bind {k : α → EStateM ε σ β} {b s u} (run : (m >>= k) s = .ok b u) :
    ∃ a t, m s = .ok a t ∧ k a t = .ok b u := by
  cases first : m s with
  | ok a t => exact ⟨a, t, rfl, (bind_of_ok first).symm.trans run⟩
  | error err t => cases (bind_of_error first).symm.trans run

/-- Conditions may be weakened. -/
lemma Outcome.imp {s result} (o : Outcome R E Q F s result) (after : ∀ a t, Q a t → Q' a t)
    (failed : ∀ t, F t → F' t) :
    Outcome R E Q' F' s result := by
  cases result with
  | ok a t => exact ⟨o.1, after a t o.2⟩
  | error err t => exact ⟨o.1, o.2.1, failed t o.2.2⟩

/-- An outcome is also one of an earlier state. -/
lemma Outcome.trans [IsTrans σ R] {s t result} (related : R s t) (o : Outcome R E Q F t result) :
    Outcome R E Q F s result := by
  cases result with
  | ok a u => exact ⟨IsTrans.trans _ _ _ related o.1, o.2⟩
  | error err u => exact ⟨IsTrans.trans _ _ _ related o.1, o.2⟩

/-- The relation may be weakened. -/
lemma Outcome.relax {R' : σ → σ → Prop} {s result} (o : Outcome R E Q F s result)
    (weaker : ∀ t, R s t → R' s t) : Outcome R' E Q F s result := by
  cases result with
  | ok a t => exact ⟨weaker t o.1, o.2⟩
  | error err t => exact ⟨weaker t o.1, o.2⟩

namespace Triple

/-- Conditions may be strengthened before and weakened after. -/
lemma conseq (h : Triple R E P m Q F)
    (before : ∀ s, P' s → P s)
    (after : ∀ a s, Q a s → Q' a s)
    (failed : ∀ s, F s → F' s) :
    Triple R E P' m Q' F' :=
  fun s hs => (h s (before s hs)).imp after failed

/-- The precondition may be strengthened. -/
lemma pre (h : Triple R E P m Q F) (before : ∀ s, P' s → P s) : Triple R E P' m Q F :=
  fun s hs => h s (before s hs)

/-- The postcondition may be weakened. -/
lemma post (h : Triple R E P m Q F) (after : ∀ a s, Q a s → Q' a s) : Triple R E P m Q' F :=
  fun s hs => (h s hs).imp after fun _ failed => failed

/-- More errors may be allowed. -/
lemma allow {E' : ε → Prop} (h : Triple R E P m Q F) (allowed : ∀ err, E err → E' err) :
    Triple R E' P m Q F := by
  intro s hs
  have result := h s hs
  cases run : m s with
  | ok a t =>
    rw [run] at result
    exact result
  | error err t =>
    rw [run] at result
    exact ⟨result.1, allowed err result.2.1, result.2.2⟩

/-- A fact that does not depend on the state can be assumed. -/
lemma assume {φ : Prop} (h : φ → Triple R E P m Q F) : Triple R E (fun s => P s ∧ φ) m Q F :=
  fun s hs => h hs.2 s hs.1

/-- What an operation leaves alone still holds after a success. -/
lemma frame {I : σ → Prop} (h : Triple R E P m Q F)
    (keeps : ∀ s a t, m s = .ok a t → I s → I t) :
    Triple R E (fun s => P s ∧ I s) m (fun a s => Q a s ∧ I s) F := by
  rintro s ⟨hs, hI⟩
  have result := h s hs
  cases run : m s with
  | ok a t =>
    rw [run] at result
    exact ⟨result.1, result.2, keeps s a t run hI⟩
  | error err t =>
    rw [run] at result
    exact result

lemma pure [Std.Refl R] {a} (h : ∀ s, P s → Q a s) :
    Triple R E P (pure a : EStateM ε σ α) Q F :=
  fun s hs => ⟨Std.Refl.refl s, h s hs⟩

lemma throw [Std.Refl R] {err} (allowed : E err) (h : ∀ s, P s → F s) :
    Triple R E P (throw err : EStateM ε σ α) Q F :=
  fun s hs => ⟨Std.Refl.refl s, allowed, h s hs⟩

/-- The rule for one operation after the other. -/
lemma bind [IsTrans σ R] {k : α → EStateM ε σ β}
    (first : Triple R E P m Q F)
    (next : ∀ a, Triple R E (Q a) (k a) T F) :
    Triple R E P (m >>= k) T F := by
  intro s hs
  have begun := first s hs
  change Outcome R E T F s (EStateM.bind m k s)
  unfold EStateM.bind
  cases run : m s with
  | error err t =>
    rw [run] at begun
    exact begun
  | ok a t =>
    rw [run] at begun
    exact (next a t begun.2).trans begun.1

lemma get [Std.Refl R] : Triple R E P (get : EStateM ε σ σ) (fun a s => P s ∧ a = s) F :=
  fun s hs => ⟨Std.Refl.refl s, hs, rfl⟩

lemma modify {f : σ → σ} {Q : σ → Prop} (h : Turns R P f Q) :
    Triple R E P (modify f : EStateM ε σ PUnit) (fun _ => Q) F :=
  fun s hs => h s hs

/-- A change of an engine that is made in any case. -/
lemma ensure {R : Engine → Engine → Prop} [IsTrans Engine R] {E : Fault → Prop}
    {P F F' : Engine → Prop} {Q Q' : α → Engine → Prop} {m : EngineM α} {change : Engine → Engine}
    (h : Triple R E P m Q F) (success : ∀ a, Turns R (Q a) change (Q' a))
    (failure : Turns R F change F') :
    Triple R E P (m.ensure change) Q' F' := by
  intro e he
  have begun := h e he
  unfold EngineM.ensure
  cases run : m e with
  | ok a e' =>
    rw [run] at begun
    obtain ⟨related, post⟩ := success a e' begun.2
    exact ⟨IsTrans.trans _ _ _ begun.1 related, post⟩
  | error fault e' =>
    rw [run] at begun
    obtain ⟨related, post⟩ := failure e' begun.2.2
    exact ⟨IsTrans.trans _ _ _ begun.1 related, begun.2.1, post⟩

end Triple

lemma Turns.comp [IsTrans σ R] {P Q T : σ → Prop} {f g : σ → σ}
    (first : Turns R P f Q) (next : Turns R Q g T) : Turns R P (fun s => g (f s)) T := by
  intro s hs
  obtain ⟨related, middle⟩ := first s hs
  obtain ⟨related', last⟩ := next (f s) middle
  exact ⟨IsTrans.trans _ _ _ related related', last⟩

end FiberVM
