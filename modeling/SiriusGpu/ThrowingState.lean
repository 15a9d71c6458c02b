import Mathlib.Logic.Basic
import Mathlib.Data.List.Forall2

/-!
# Procedures that throw and keep their changes

A procedure runs on a state and returns or throws; either way the state it leaves
is the state it has made. Triples name what holds after a return and what holds
after a throw.
-/

namespace ThrowingState

variable {σ ε α β : Type}

def Proc (σ ε α : Type) : Type := σ → Except ε α × σ

namespace Proc

def ret (a : α) : Proc σ ε α := fun s => (.ok a, s)

def andThen (x : Proc σ ε α) (f : α → Proc σ ε β) : Proc σ ε β := fun s =>
  match x s with
  | (.ok a, s') => f a s'
  | (.error e, s') => (.error e, s')

instance : Monad (Proc σ ε) where
  pure := ret
  bind := andThen

def raise (e : ε) : Proc σ ε α := fun s => (.error e, s)

def read (f : σ → α) : Proc σ ε α := fun s => (.ok (f s), s)

def update (f : σ → σ) : Proc σ ε Unit := fun s => (.ok (), f s)

/-- The result of a procedure, whether it has returned or thrown. -/
def attempt (x : Proc σ ε α) : Proc σ ε (Except ε α) := fun s => (.ok (x s).1, (x s).2)

/-- The procedures of a list, one after another. -/
def each (f : β → Proc σ ε Unit) : List β → Proc σ ε Unit
  | [] => pure ()
  | b :: bs => f b >>= fun _ => each f bs

/-- The procedures of a list, with their results. -/
def collect (f : β → Proc σ ε α) : List β → Proc σ ε (List α)
  | [] => pure []
  | b :: bs => do
    let a ← f b
    let as ← collect f bs
    pure (a :: as)

variable {x : Proc σ ε α} {f : α → Proc σ ε β} {s s' : σ}

theorem bind_ok {a : α} (h : x s = (.ok a, s')) : (x >>= f) s = f a s' := by
  change andThen x f s = f a s'
  unfold andThen
  rw [h]

theorem bind_error {e : ε} (h : x s = (.error e, s')) : (x >>= f) s = (.error e, s') := by
  change andThen x f s = (.error e, s')
  unfold andThen
  rw [h]

/-- A sequence that returns has returned in both its parts. -/
theorem bind_inv {b : β} {s'' : σ} (run : (x >>= f) s = (.ok b, s'')) :
    ∃ a s', x s = (.ok a, s') ∧ f a s' = (.ok b, s'') := by
  rcases first : x s with ⟨result, s'⟩
  cases result with
  | ok a => exact ⟨a, s', rfl, (bind_ok first).symm.trans run⟩
  | error e =>
    rw [bind_error first] at run
    cases run

theorem collect_inv {f : β → Proc σ ε α} {l : List β} {as : List α}
    (run : collect f l s = (.ok as, s')) :
    List.Forall₂ (fun b a => ∃ s s', f b s = (.ok a, s')) l as := by
  induction l generalizing s as with
  | nil =>
    cases run
    exact .nil
  | cons b l ih =>
    obtain ⟨a, s₁, first, rest⟩ := bind_inv run
    obtain ⟨as, s₂, later, last⟩ := bind_inv rest
    cases last
    exact .cons ⟨s, s₁, first⟩ (ih later)

theorem each_inv {f : β → Proc σ ε Unit} {l : List β} (run : each f l s = (.ok (), s')) :
    ∀ b ∈ l, ∃ s s', f b s = (.ok (), s') := by
  induction l generalizing s with
  | nil => simp
  | cons b l ih =>
    obtain ⟨_, s₁, first, rest⟩ := bind_inv run
    exact List.forall_mem_cons.mpr ⟨⟨s, s₁, first⟩, ih rest⟩

theorem attempt_eq {result : Except ε α} (h : x s = (result, s')) :
    attempt x s = (.ok result, s') := by
  unfold attempt
  rw [h]

theorem bind_read (g : σ → α) : (Proc.read g >>= f) s = f (g s) s := rfl

section Algebra

variable {γ : Type}

theorem pure_bind (a : α) (f : α → Proc σ ε β) : ((pure a : Proc σ ε α) >>= f) = f a := rfl

theorem bind_assoc (x : Proc σ ε α) (f : α → Proc σ ε β) (g : β → Proc σ ε γ) :
    (x >>= f) >>= g = x >>= fun a => f a >>= g := by
  funext s
  rcases run : x s with ⟨result, s'⟩
  cases result with
  | ok a =>
    rw [bind_ok run]
    have first : (x >>= f) s = f a s' := bind_ok run
    rcases second : f a s' with ⟨result, s''⟩
    cases result with
    | ok b => rw [bind_ok (first.trans second), bind_ok second]
    | error e => rw [bind_error (first.trans second), bind_error second]
  | error e => rw [bind_error run, bind_error (bind_error run)]

theorem each_cons (f : β → Proc σ ε Unit) (b : β) (l : List β) :
    each f (b :: l) = f b >>= fun _ => each f l := rfl

theorem collect_cons (f : β → Proc σ ε α) (b : β) (l : List β) :
    collect f (b :: l) = f b >>= fun a => collect f l >>= fun as => pure (a :: as) := rfl

theorem each_append (f : β → Proc σ ε Unit) (xs ys : List β) :
    each f (xs ++ ys) = each f xs >>= fun _ => each f ys := by
  induction xs with
  | nil => rfl
  | cons x xs ih => rw [List.cons_append, each_cons, each_cons, bind_assoc, ih]

/-- What a procedure does, without its result. -/
def effect (x : Proc σ ε α) : Proc σ ε Unit := x >>= fun _ => pure ()

theorem effect_ok {x : Proc σ ε α} {a : α} {s s' : σ} (h : x s = (.ok a, s')) :
    effect x s = (.ok (), s') := bind_ok h

theorem effect_throw {x : Proc σ ε α} {e : ε} {s s' : σ} (h : x s = (.error e, s')) :
    effect x s = (.error e, s') := bind_error h

theorem effect_collect {f : β → Proc σ ε α} {g : γ → Proc σ ε Unit} {r : β → List γ}
    (h : ∀ b, effect (f b) = each g (r b)) (l : List β) :
    effect (collect f l) = each g (l.flatMap r) := by
  induction l with
  | nil => rfl
  | cons b l ih =>
    rw [List.flatMap_cons, each_append, ← ih, ← h b, collect_cons]
    simp only [effect, bind_assoc, pure_bind]

end Algebra

section Raises

variable {E : ε → Prop} {e : ε}

/-- The errors a procedure throws, wherever it starts. -/
def Raises (E : ε → Prop) (x : Proc σ ε α) : Prop := ∀ s e, (x s).1 = .error e → E e

theorem effect_error : (effect x s).1 = .error e ↔ (x s).1 = .error e := by
  unfold effect
  rcases run : x s with ⟨result, s'⟩
  cases result with
  | ok a =>
    rw [bind_ok run]
    constructor <;> intro h <;> cases h
  | error e' =>
    rw [bind_error run]
    constructor <;> intro h <;> cases h <;> rfl

/-- An error of a sequence comes from its first part or, after that has returned, from its
second. -/
theorem bind_throws : ((x >>= f) s).1 = .error e ↔
    (x s).1 = .error e ∨ ∃ a s', x s = (.ok a, s') ∧ (f a s').1 = .error e := by
  rcases run : x s with ⟨result, s'⟩
  cases result with
  | ok a =>
    rw [bind_ok run]
    constructor
    · intro h
      exact .inr ⟨a, s', rfl, h⟩
    · rintro (h | ⟨_, _, h, thrown⟩)
      · cases h
      · cases h
        exact thrown
  | error e' =>
    rw [bind_error run]
    constructor
    · intro h
      cases h
      exact .inl rfl
    · rintro (h | ⟨_, _, h, _⟩)
      · cases h
        rfl
      · cases h

theorem Raises.bind (hx : Raises E x) (hf : ∀ a, Raises E (f a)) : Raises E (x >>= f) := by
  intro s e thrown
  rcases bind_throws.mp thrown with first | ⟨a, s', _, second⟩
  · exact hx s e first
  · exact hf a s' e second

theorem Raises.each {f : β → Proc σ ε Unit} (h : ∀ b, Raises E (f b)) (l : List β) :
    Raises E (Proc.each f l) := by
  induction l with
  | nil =>
    intro s e thrown
    cases thrown
  | cons b l ih => exact Raises.bind (h b) fun _ => ih

end Raises

end Proc

open Proc

/-- From a state in `P` the procedure returns into `Q` or throws into `E`. -/
def Triple (P : σ → Prop) (x : Proc σ ε α) (Q : α → σ → Prop) (E : σ → Prop) : Prop :=
  ∀ s, P s → match x s with
    | (.ok a, s') => Q a s'
    | (.error _, s') => E s'

namespace Triple

variable {P P' : σ → Prop} {x : Proc σ ε α} {Q Q' : α → σ → Prop} {E E' : σ → Prop}

theorem ret {a : α} (h : ∀ s, P s → Q a s) : Triple P (pure a : Proc σ ε α) Q E := h

theorem raise {e : ε} (h : ∀ s, P s → E s) : Triple P (Proc.raise e : Proc σ ε α) Q E := h

theorem read {f : σ → α} (h : ∀ s, P s → Q (f s) s) :
    Triple P (Proc.read f : Proc σ ε α) Q E := h

theorem update {f : σ → σ} {Q : Unit → σ → Prop} (h : ∀ s, P s → Q () (f s)) :
    Triple P (Proc.update f : Proc σ ε Unit) Q E := h

theorem bind {f : α → Proc σ ε β} {R : β → σ → Prop} (hx : Triple P x Q E)
    (hf : ∀ a, Triple (Q a) (f a) R E) : Triple P (x >>= f) R E := by
  intro s hs
  have first := hx s hs
  change match Proc.andThen x f s with | (.ok b, s') => R b s' | (.error _, s') => E s'
  unfold Proc.andThen
  rcases hrun : x s with ⟨result, s'⟩
  rw [hrun] at first
  cases result with
  | ok a => exact hf a s' first
  | error e => exact first

theorem weaken (h : Triple P x Q E) (pre : ∀ s, P' s → P s) (post : ∀ a s, Q a s → Q' a s)
    (thrown : ∀ s, E s → E' s) : Triple P' x Q' E' := by
  intro s hs
  have run := h s (pre s hs)
  rcases hrun : x s with ⟨result, s'⟩
  rw [hrun] at run
  cases result with
  | ok a => exact post a s' run
  | error e => exact thrown s' run

theorem pre (h : Triple P x Q E) (weaker : ∀ s, P' s → P s) : Triple P' x Q E :=
  h.weaken weaker (fun _ _ h => h) (fun _ h => h)

theorem post (h : Triple P x Q E) (weaker : ∀ a s, Q a s → Q' a s) : Triple P x Q' E :=
  h.weaken (fun _ h => h) weaker (fun _ h => h)

/-- What holds after a throw is left open. -/
theorem lax (h : Triple P x Q E) : Triple P x Q fun _ => True :=
  h.weaken (fun _ h => h) (fun _ _ h => h) fun _ _ => trivial

theorem unreachable : Triple (fun _ => False) x Q E := fun _ h => h.elim

theorem ite {b : Prop} [Decidable b] {y : Proc σ ε α} (yes : b → Triple P x Q E)
    (no : ¬ b → Triple P y Q E) : Triple P (if b then x else y) Q E := by
  by_cases h : b
  · rw [if_pos h]
    exact yes h
  · rw [if_neg h]
    exact no h

/-- A precondition that fixes a fact lets the procedure be verified under it. -/
theorem given {fact : Prop} (h : fact → Triple P x Q E) :
    Triple (fun s => fact ∧ P s) x Q E := by
  rintro s ⟨known, hs⟩
  exact h known s hs

theorem some {γ : Type} {P : γ → σ → Prop} (h : ∀ c, Triple (P c) x Q E) :
    Triple (fun s => ∃ c, P c s) x Q E := by
  rintro s ⟨c, hs⟩
  exact h c s hs

/-- The rule of a loop over a list: the invariant speaks of what has been done. -/
theorem each {f : β → Proc σ ε Unit} {l : List β} {I : List β → σ → Prop}
    (step : ∀ done b rest, l = done ++ b :: rest →
      Triple (I done) (f b) (fun _ => I (done ++ [b])) E) :
    Triple (I []) (Proc.each f l) (fun _ => I l) E := by
  suffices H : ∀ done rest, l = done ++ rest →
      Triple (I done) (Proc.each f rest) (fun _ => I l) E from H [] l rfl
  intro done rest
  induction rest generalizing done with
  | nil =>
    intro hl
    rw [List.append_nil] at hl
    rw [hl]
    exact ret fun _ h => h
  | cons b rest ih =>
    intro hl
    apply bind (step done b rest hl)
    intro _
    apply ih
    rw [hl, List.append_assoc]
    rfl

/-- The rule of a loop that collects results: the invariant speaks of them, too. -/
theorem collect {f : β → Proc σ ε α} {l : List β} {I : List β → List α → σ → Prop}
    (step : ∀ done b rest as, l = done ++ b :: rest →
      Triple (I done as) (f b) (fun a => I (done ++ [b]) (as ++ [a])) E) :
    Triple (I [] []) (Proc.collect f l) (I l) E := by
  suffices H : ∀ done rest as, l = done ++ rest →
      Triple (I done as) (Proc.collect f rest) (fun more => I l (as ++ more)) E from
    H [] l [] rfl
  intro done rest
  induction rest generalizing done with
  | nil =>
    intro as hl
    rw [List.append_nil] at hl
    rw [hl]
    apply ret
    intro s hs
    rwa [List.append_nil]
  | cons b rest ih =>
    intro as hl
    apply bind (step done b rest as hl)
    intro a
    apply bind (ih (done ++ [b]) (as ++ [a]) (by rw [hl, List.append_assoc]; rfl))
    intro more
    apply ret
    intro s hs
    rwa [List.append_assoc] at hs

/-- A loop that keeps a property, with what its results have. -/
theorem collect_all {f : β → Proc σ ε α} {l : List β} {R : α → Prop}
    (step : ∀ b ∈ l, Triple P (f b) (fun a s => P s ∧ R a) E) :
    Triple P (Proc.collect f l) (fun as s => P s ∧ ∀ a ∈ as, R a) E := by
  induction l with
  | nil => exact ret fun _ h => ⟨h, by simp⟩
  | cons b l ih =>
    apply bind (step b List.mem_cons_self)
    intro a
    have later := ih fun c member => step c (List.mem_cons_of_mem _ member)
    intro s ⟨hs, first⟩
    refine bind later (fun as => ret fun s' ⟨hs', rest⟩ => ⟨hs', ?_⟩) s hs
    simpa using ⟨first, rest⟩

theorem collect_keeps {f : β → Proc σ ε α} {l : List β}
    (step : ∀ b ∈ l, Triple P (f b) (fun _ => P) E) :
    Triple P (Proc.collect f l) (fun _ => P) E := by
  have all := collect_all (R := fun _ => True) fun b member =>
    (step b member).post fun _ _ h => ⟨h, trivial⟩
  exact all.post fun _ _ h => h.1

/-- What one of the steps reaches, the loop reaches. -/
theorem collect_reaches {f : β → Proc σ ε α} {l : List β} {Q : σ → Prop}
    (before : ∀ b, Triple P (f b) (fun _ => P) E) (after : ∀ b, Triple Q (f b) (fun _ => Q) E)
    {b : β} (member : b ∈ l) (step : Triple P (f b) (fun _ => Q) E) :
    Triple P (Proc.collect f l) (fun _ => Q) E := by
  induction l with
  | nil => cases member
  | cons c l ih =>
    by_cases here : b = c
    · subst here
      apply bind step
      intro a
      exact bind (collect_keeps fun b _ => after b) fun _ => ret fun _ h => h
    · have later := (List.mem_cons.mp member).resolve_left here
      apply bind (before c)
      intro a
      exact bind (ih later) fun _ => ret fun _ h => h

end Triple

end ThrowingState
