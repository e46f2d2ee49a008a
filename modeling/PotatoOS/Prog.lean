/-
PotatoOS/Prog.lean

Programs over a state, as C functions run them.

A run either returns a value or stops without one: it reaches behaviour
that the C standard leaves undefined (a read outside an array, a division
by zero, an uninitialised value), or the step budget of the model is used
up in a loop that has not ended.  The state is kept in every case, so that
a property of everything a run did before it stopped can be stated.

Two rules carry the proofs.  `Prog.bind_value` peels a computation apart
once its first part is known to return; `Prog.Keeps` is the rule for
relations between the state before and the state after, whatever the
outcome.  `Prog.Extends` compares runs with different budgets: more steps
never change a run that had enough.  `Prog.Within` says why a run can stop;
`Prog.Halts` says that some budget is enough, `Prog.Settles` what the run then
comes to, and `Prog.Total` that no budget is needed.  `Prog.Yields` is about the
values that a program can return at all, and `Prog.Alike` about two runs at
once.  `Prog.zoom` runs a program on a part of a larger state, `Prog.note` keeps
a record beside it, and `Prog.Over` says that the record changes nothing.
-/
import Mathlib.Order.Filter.AtTopBot.Basic
import Mathlib.Tactic

namespace PotatoOS

/-- Why a run ends without returning. -/
inductive Stop where
  /-- The C program has no defined behaviour from here on. -/
  | undefined
  /-- Nor here, because a divisor is zero; told apart for the driver of FAT.c. -/
  | divideByZero
  /-- The step budget is used up. -/
  | exhausted
  deriving DecidableEq, Repr

/-- What a run comes to. -/
inductive Outcome (α : Type*) where
  | value (a : α)
  | stop (e : Stop)
  deriving DecidableEq, Repr

/-- A program over the state `σ`. -/
def Prog (σ α : Type) := σ → Outcome α × σ

namespace Prog

variable {σ α β : Type}

instance : Monad (Prog σ) where
  pure a := fun s => (.value a, s)
  bind m f := fun s =>
    match m s with
    | (.value a, s') => f a s'
    | (.stop e, s') => (.stop e, s')

/-- End the run. -/
def halt (e : Stop) : Prog σ α := fun s => (.stop e, s)

/-- Read a component of the state. -/
def gets (f : σ → α) : Prog σ α := fun s => (.value (f s), s)

/-- Change the state. -/
def modify (f : σ → σ) : Prog σ Unit := fun s => (.value (), f s)

@[simp] theorem pure_apply (a : α) (s : σ) :
    (pure a : Prog σ α) s = (.value a, s) := rfl

@[simp] theorem halt_apply (e : Stop) (s : σ) :
    (halt e : Prog σ α) s = (.stop e, s) := rfl

@[simp] theorem gets_apply (f : σ → α) (s : σ) :
    gets f s = (.value (f s), s) := rfl

@[simp] theorem modify_apply (f : σ → σ) (s : σ) :
    modify f s = (.value (), f s) := rfl

theorem ite_apply (p : Prop) [Decidable p] (m₁ m₂ : Prog σ α) (s : σ) :
    (if p then m₁ else m₂) s = if p then m₁ s else m₂ s := by
  split <;> rfl

variable {m : Prog σ α} {f : α → Prog σ β} {s s' : σ} {a : α} {e : Stop}

instance : LawfulMonad (Prog σ) := LawfulMonad.mk' _
  (by
    intro α m
    funext s
    show (match m s with
      | (.value a, s') => (.value a, s')
      | (.stop e, s') => (.stop e, s')) = m s
    rcases m s with ⟨a | e, s'⟩
    · rfl
    · rfl)
  (fun _ _ => rfl)
  (by
    intro α β γ m f k
    funext s
    show (match (match m s with
        | (.value a, s') => f a s'
        | (.stop e, s') => (.stop e, s')) with
      | (.value b, s') => k b s'
      | (.stop e, s') => (.stop e, s')) = (match m s with
        | (.value a, s') => (f a >>= k) s'
        | (.stop e, s') => (.stop e, s'))
    rcases m s with ⟨a | e, s'⟩
    · rfl
    · rfl)

/-! ### Running a bind -/

theorem bind_value (h : m s = (.value a, s')) : (m >>= f) s = f a s' := by
  show (match m s with
    | (.value a, s') => f a s'
    | (.stop e, s') => (.stop e, s')) = _
  rw [h]

theorem bind_stop (h : m s = (.stop e, s')) : (m >>= f) s = (.stop e, s') := by
  show (match m s with
    | (.value a, s') => f a s'
    | (.stop e, s') => (.stop e, s')) = _
  rw [h]

theorem bind_congr_left {m' : Prog σ α} (h : m s = m' s) : (m >>= f) s = (m' >>= f) s := by
  show (match m s with
    | (.value a, s') => f a s'
    | (.stop e, s') => (.stop e, s')) = _
  rw [h]
  rfl

/-- A bind that returns is a run of each of its parts. -/
theorem bind_eq_value {b : β} {s'' : σ} (h : (m >>= f) s = (.value b, s'')) :
    ∃ a s', m s = (.value a, s') ∧ f a s' = (.value b, s'') := by
  rcases hm : m s with ⟨a | e, s'⟩
  · rw [bind_value hm] at h
    exact ⟨a, s', rfl, h⟩
  · rw [bind_stop hm] at h
    cases h

@[simp] theorem gets_bind (g : σ → α) (s : σ) : (gets g >>= f) s = f (g s) s := rfl

@[simp] theorem modify_bind (g : σ → σ) (f : Unit → Prog σ β) (s : σ) :
    (modify g >>= f) s = f () (g s) := rfl

/-! ### Relations that every run keeps -/

/-- Whatever the outcome, the states before and after are related by `R`. -/
def Keeps (R : σ → σ → Prop) (m : Prog σ α) : Prop := ∀ s, R s (m s).2

variable {R : σ → σ → Prop}

theorem Keeps.pure (hR : ∀ s, R s s) (a : α) : Keeps R (pure a : Prog σ α) :=
  fun s => hR s

theorem Keeps.halt (hR : ∀ s, R s s) (e : Stop) : Keeps R (halt e : Prog σ α) :=
  fun s => hR s

theorem Keeps.gets (hR : ∀ s, R s s) (g : σ → α) : Keeps R (gets g) :=
  fun s => hR s

theorem Keeps.modify {g : σ → σ} (h : ∀ s, R s (g s)) : Keeps R (modify g) := h

/-- The end of a run that is known. -/
theorem Keeps.run {o : Outcome α} {s s' : σ} (hm : Keeps R m) (h : m s = (o, s')) : R s s' := by
  have hs := hm s
  rwa [h] at hs

theorem Keeps.bind (hR : ∀ {s₁ s₂ s₃}, R s₁ s₂ → R s₂ s₃ → R s₁ s₃)
    (hm : Keeps R m) (hf : ∀ a, Keeps R (f a)) : Keeps R (m >>= f) := by
  intro s
  rcases h : m s with ⟨a | e, s'⟩
  · rw [bind_value h]
    exact hR (hm.run h) (hf a s')
  · rw [bind_stop h]
    exact hm.run h

/-- A run that ends here leaves the state as it is. -/
theorem Keeps.halt_bind (hR : ∀ s, R s s) (e : Stop) (f : α → Prog σ β) :
    Keeps R (Prog.halt e >>= f) :=
  fun s => hR s

theorem Keeps.ite {p : Prop} [Decidable p] {m₁ m₂ : Prog σ α} (h₁ : Keeps R m₁)
    (h₂ : Keeps R m₂) : Keeps R (if p then m₁ else m₂) := by
  split
  · exact h₁
  · exact h₂

/-! ### More steps -/

/-- `m'` runs as `m` does, except where `m` uses up its steps. -/
def Extends (m m' : Prog σ α) : Prop := ∀ s, (m s).1 = .stop .exhausted ∨ m' s = m s

theorem Extends.refl (m : Prog σ α) : Extends m m := fun _ => .inr rfl

theorem Extends.exhausted (m : Prog σ α) : Extends (Prog.halt .exhausted) m :=
  fun _ => .inl rfl

theorem Extends.bind {m m' : Prog σ α} {f f' : α → Prog σ β} (hm : Extends m m')
    (hf : ∀ a, Extends (f a) (f' a)) : Extends (m >>= f) (m' >>= f') := by
  intro s
  rcases h : m s with ⟨a | e, s'⟩
  · rcases hm s with hx | hx
    · rw [h] at hx
      cases hx
    · rw [bind_value h, bind_value (hx.trans h)]
      exact hf a s'
  · rw [bind_stop h]
    rcases hm s with hx | hx
    · rw [h] at hx
      cases hx
      exact .inl rfl
    · exact .inr (bind_stop (hx.trans h))

theorem Extends.ite {p : Prop} [Decidable p] {m₁ m₁' m₂ m₂' : Prog σ α} (h₁ : Extends m₁ m₁')
    (h₂ : Extends m₂ m₂') : Extends (if p then m₁ else m₂) (if p then m₁' else m₂') := by
  split
  · exact h₁
  · exact h₂

/-- A loop with a budget: when one round extends as soon as the rest does, a
larger budget extends the loop. -/
theorem Extends.budget {ι : Type} {F : Nat → ι → Prog σ α}
    (h₀ : ∀ i, F 0 i = Prog.halt .exhausted)
    (hs : ∀ {n m}, (∀ i, Extends (F n i) (F m i)) → ∀ i, Extends (F (n + 1) i) (F (m + 1) i))
    {n m : Nat} (hle : n ≤ m) (i : ι) : Extends (F n i) (F m i) := by
  induction n generalizing m i with
  | zero =>
      rw [h₀]
      exact .exhausted _
  | succ n ih =>
      obtain ⟨m, rfl⟩ : ∃ k, m = k + 1 :=
        Nat.exists_eq_add_of_le' (Nat.le_trans (Nat.le_add_left 1 n) hle)
      exact hs (fun i => ih (Nat.le_of_succ_le_succ hle) i) i

/-- A run that returns returns the same with more steps. -/
theorem Extends.value {m m' : Prog σ α} (h : Extends m m') (hm : m s = (.value a, s')) :
    m' s = (.value a, s') := by
  rcases h s with hx | hx
  · rw [hm] at hx
    cases hx
  · exact hx.trans hm

/-! ### What a run returns -/

/-- Every value that the program returns satisfies `P`. -/
def Yields (P : α → Prop) (m : Prog σ α) : Prop := ∀ s a, (m s).1 = .value a → P a

theorem Yields.pure {P : α → Prop} {a : α} (h : P a) : Yields P (pure a : Prog σ α) := by
  intro s b hb
  cases hb
  exact h

theorem Yields.halt {P : α → Prop} (e : Stop) : Yields P (halt e : Prog σ α) := by
  intro s b hb
  cases hb

theorem Yields.bind_of {Q : α → Prop} {P : β → Prop} (hm : Yields Q m)
    (hf : ∀ a, Q a → Yields P (f a)) : Yields P (m >>= f) := by
  intro s b hb
  rcases h : m s with ⟨a | e, s'⟩
  · rw [bind_value h] at hb
    exact hf a (hm s a (by rw [h])) s' b hb
  · rw [bind_stop h] at hb
    cases hb

theorem Yields.bind {P : β → Prop} (hf : ∀ a, Yields P (f a)) : Yields P (m >>= f) :=
  .bind_of (fun _ _ _ => trivial) fun a _ => hf a

theorem Yields.ite {P : α → Prop} {p : Prop} [Decidable p] {m₁ m₂ : Prog σ α} (h₁ : Yields P m₁)
    (h₂ : Yields P m₂) : Yields P (if p then m₁ else m₂) := by
  split
  · exact h₁
  · exact h₂

/-! ### Two runs -/

/-- Two runs with the same outcome, in related states. -/
def Alike (R : σ → σ → Prop) (r r' : Outcome α × σ) : Prop := r.1 = r'.1 ∧ R r.2 r'.2

section

variable {R S T : σ → σ → Prop} {t : σ} {m' m₁ m₁' m₂ m₂' : Prog σ α} {f' : α → Prog σ β}

theorem Alike.same (o : Outcome α) (h : R s t) : Alike R (o, s) (o, t) := ⟨rfl, h⟩

/-- The relation may change in between; it must still give the last one where
the first part stops. -/
theorem Alike.bind_of (hm : Alike S (m s) (m' t))
    (hf : ∀ a s' t', S s' t' → Alike T (f a s') (f' a t')) (hST : ∀ s t, S s t → T s t) :
    Alike T ((m >>= f) s) ((m' >>= f') t) := by
  obtain ⟨ho, hs⟩ := hm
  rcases h : m s with ⟨a | e, s'⟩
  · rcases h' : m' t with ⟨a' | e', t'⟩
    · rw [h, h'] at ho hs
      cases ho
      rw [bind_value h, bind_value h']
      exact hf a s' t' hs
    · rw [h, h'] at ho
      cases ho
  · rcases h' : m' t with ⟨a' | e', t'⟩
    · rw [h, h'] at ho
      cases ho
    · rw [h, h'] at ho hs
      cases ho
      rw [bind_stop h, bind_stop h']
      exact .same _ (hST _ _ hs)

theorem Alike.bind (hm : Alike R (m s) (m' t))
    (hf : ∀ a s' t', R s' t' → Alike R (f a s') (f' a t')) :
    Alike R ((m >>= f) s) ((m' >>= f') t) := hm.bind_of hf fun _ _ h => h

theorem Alike.ite {p : Prop} [Decidable p] (h₁ : Alike R (m₁ s) (m₁' t))
    (h₂ : Alike R (m₂ s) (m₂' t)) :
    Alike R ((if p then m₁ else m₂) s) ((if p then m₁' else m₂') t) := by
  split
  · exact h₁
  · exact h₂

end

/-! ### Why a run stops -/

/-- When a run stops, then for one of these reasons. -/
def Within (S : Stop → Prop) (m : Prog σ α) : Prop := ∀ s e, (m s).1 = .stop e → S e

section

variable {S : Stop → Prop}

theorem Within.pure (a : α) : Within S (pure a : Prog σ α) := by
  intro s e h
  cases h

theorem Within.halt (he : S e) : Within S (Prog.halt e : Prog σ α) := by
  intro s e' h
  cases h
  exact he

theorem Within.halt_bind (he : S e) (f : α → Prog σ β) : Within S (Prog.halt e >>= f) := by
  intro s e' h
  cases h
  exact he

theorem Within.gets (g : σ → α) : Within S (Prog.gets g) := by
  intro s e h
  cases h

theorem Within.modify (g : σ → σ) : Within S (Prog.modify g) := by
  intro s e h
  cases h

theorem Within.bind (hm : Within S m) (hf : ∀ a, Within S (f a)) : Within S (m >>= f) := by
  intro s e
  rcases h : m s with ⟨a | e', s'⟩
  · rw [bind_value h]
    exact hf a s' e
  · rw [bind_stop h]
    intro he
    cases he
    exact hm s e (by rw [h])

theorem Within.ite {p : Prop} [Decidable p] {m₁ m₂ : Prog σ α} (h₁ : Within S m₁)
    (h₂ : Within S m₂) : Within S (if p then m₁ else m₂) := by
  split
  · exact h₁
  · exact h₂

theorem Within.mono {T : Stop → Prop} (hm : Within S m) (h : ∀ e, S e → T e) : Within T m :=
  fun s e he => h e (hm s e he)

end

/-- The run never uses up its steps. -/
def Total (m : Prog σ α) : Prop := ∀ s, (m s).1 ≠ .stop .exhausted

theorem Within.total {S : Stop → Prop} (hm : Within S m) (h : ¬S .exhausted) : Total m :=
  fun s hs => h (hm s _ hs)

theorem Total.pure (a : α) : Total (pure a : Prog σ α) := by
  intro s h
  cases h

theorem Total.undefined : Total (Prog.halt .undefined : Prog σ α) := by
  intro s h
  cases h

theorem Total.ite {p : Prop} [Decidable p] {m₁ m₂ : Prog σ α} (h₁ : Total m₁) (h₂ : Total m₂) :
    Total (if p then m₁ else m₂) := by
  split
  · exact h₁
  · exact h₂

/-- With enough steps the run ends. -/
def Halts (F : Nat → Prog σ α) (s : σ) : Prop := ∃ fuel, (F fuel s).1 ≠ .stop .exhausted

theorem Halts.of_total {F : Nat → Prog σ α} (n : Nat) (h : Total (F n)) : Halts F s := ⟨n, h s⟩

/-- A run ends when its first part does and what follows a returned value does. -/
theorem halts_bind_iff {m : Nat → Prog σ α} {f : Nat → α → Prog σ β}
    (hm : ∀ {n k}, n ≤ k → Extends (m n) (m k))
    (hf : ∀ {n k} a, n ≤ k → Extends (f n a) (f k a)) :
    Halts (fun n => m n >>= f n) s ↔
      Halts m s ∧ ∀ n a s', m n s = (.value a, s') → Halts (fun n => f n a) s' := by
  constructor
  · rintro ⟨n, hn⟩
    change ((m n >>= f n) s).1 ≠ .stop .exhausted at hn
    constructor
    · refine ⟨n, fun h => hn ?_⟩
      rw [bind_stop (Prod.ext h rfl)]
    · intro k a s' hk
      refine ⟨max n k, fun h => hn ?_⟩
      -- with the larger budget both parts are known
      have hmax := (hm (Nat.le_max_right n k)).value hk
      have hext : Extends (m n >>= f n) (m (max n k) >>= f (max n k)) :=
        .bind (hm (Nat.le_max_left n k)) fun a => hf a (Nat.le_max_left n k)
      rcases hext s with hex | heq
      · exact hex
      · rw [bind_value hmax] at heq
        rw [← heq]
        exact h
  · rintro ⟨⟨n, hn⟩, hrest⟩
    rcases hr : m n s with ⟨a | e, s'⟩
    · obtain ⟨k, hk⟩ := hrest n a s' hr
      refine ⟨max n k, fun h => hk ?_⟩
      change ((m (max n k) >>= f (max n k)) s).1 = .stop .exhausted at h
      rw [bind_value ((hm (Nat.le_max_left n k)).value hr)] at h
      rcases hf a (Nat.le_max_right n k) s' with hex | heq
      · exact hex
      · rwa [heq] at h
    · refine ⟨n, fun h => hn ?_⟩
      change ((m n >>= f n) s).1 = .stop .exhausted at h
      rw [bind_stop hr] at h
      rw [hr]
      exact congrArg Outcome.stop (Outcome.stop.inj h)

/-- From some budget on the run returns, always the same, with a result in `Q`. -/
def Settles (F : Nat → Prog σ α) (s : σ) (Q : α → σ → Prop) : Prop :=
  ∃ a s', (∀ᶠ fuel in Filter.atTop, F fuel s = (.value a, s')) ∧ Q a s'

section

variable {F : Nat → Prog σ α} {G : Nat → α → Prog σ β} {Q R : α → σ → Prop}

theorem Settles.of_eq (h : ∀ fuel, F (fuel + 1) s = (.value a, s')) (hQ : Q a s') :
    Settles F s Q := by
  refine ⟨a, s', Filter.eventually_atTop.mpr ⟨1, fun fuel hfuel => ?_⟩, hQ⟩
  obtain ⟨k, rfl⟩ := Nat.exists_eq_add_of_le' hfuel
  exact h k

theorem Settles.pure (hQ : Q a s) : Settles (fun _ => Pure.pure a) s Q := .of_eq (fun _ => rfl) hQ

theorem Settles.mono (h : Settles F s Q) (hQR : ∀ a s', Q a s' → R a s') : Settles F s R := by
  obtain ⟨a, s', hrun, hQ⟩ := h
  exact ⟨a, s', hrun, hQR a s' hQ⟩

theorem Settles.bind {P : β → σ → Prop} (h : Settles F s Q)
    (hG : ∀ a s', Q a s' → Settles (fun fuel => G fuel a) s' P) :
    Settles (fun fuel => F fuel >>= G fuel) s P := by
  obtain ⟨a, s', hrun, hQ⟩ := h
  obtain ⟨b, s'', hrun', hP⟩ := hG a s' hQ
  refine ⟨b, s'', ?_, hP⟩
  filter_upwards [hrun, hrun'] with fuel h₁ h₂
  rw [bind_value h₁, h₂]

/-- A first part that needs no budget. -/
theorem Settles.value_bind {P : β → σ → Prop} (h : ∀ fuel, F fuel s = (.value a, s'))
    (hG : Settles (fun fuel => G fuel a) s' P) :
    Settles (fun fuel => F fuel >>= G fuel) s P :=
  .bind (.of_eq (fun fuel => h (fuel + 1)) ⟨rfl, rfl⟩ : Settles F s fun b t => b = a ∧ t = s') (by
    rintro _ _ ⟨rfl, rfl⟩
    exact hG)

/-- A loop spends a step on each of its rounds. -/
theorem Settles.succ (hround : ∀ fuel, F (fuel + 1) s = F fuel s') (h : Settles F s' Q) :
    Settles F s Q := by
  obtain ⟨a, s'', hrun, hQ⟩ := h
  refine ⟨a, s'', ?_, hQ⟩
  obtain ⟨n, hn⟩ := Filter.eventually_atTop.mp hrun
  refine Filter.eventually_atTop.mpr ⟨n + 1, fun fuel hfuel => ?_⟩
  obtain ⟨k, rfl⟩ := Nat.exists_eq_add_of_le' (Nat.le_of_add_left_le hfuel)
  rw [hround, hn k (Nat.le_of_add_le_add_right hfuel)]

/-- Two facts about a run that settles are about the same result. -/
theorem Settles.and (hQ : Settles F s Q) (hR : Settles F s R) :
    Settles F s fun a s' => Q a s' ∧ R a s' := by
  obtain ⟨a, s₁, hrun₁, hQ⟩ := hQ
  obtain ⟨b, s₂, hrun₂, hR⟩ := hR
  obtain ⟨fuel, h₁, h₂⟩ := (hrun₁.and hrun₂).exists
  cases h₁.symm.trans h₂
  exact ⟨a, s₁, hrun₁, hQ, hR⟩

theorem Settles.exists (h : Settles F s Q) : ∃ a s', Q a s' := by
  obtain ⟨a, s', -, hQ⟩ := h
  exact ⟨a, s', hQ⟩

end

/-! ### A part of the state -/

section

variable {τ : Type} (get : τ → σ) (set : τ → σ → τ)

/-- Run a program on a part of the state. -/
def zoom (m : Prog σ α) : Prog τ α := fun t => ((m (get t)).1, set t (m (get t)).2)

variable {get set} {t : τ} {o : Outcome α}

theorem zoom_run (h : m (get t) = (o, s')) : zoom get set m t = (o, set t s') := by
  rw [zoom, h]

theorem Within.zoom {S : Stop → Prop} (hm : Within S m) : Within S (Prog.zoom get set m) :=
  fun t e => hm (get t) e

/-- What the rest of the state keeps. -/
theorem Keeps.zoom {R : τ → τ → Prop} (hR : ∀ t s, R t (set t s)) :
    Keeps R (Prog.zoom get set m) := fun _ => hR _ _

end

/-! ### Records -/

/-- Run a program and put its result on record, if the result is one of these. -/
def note (p : α → Prop) [DecidablePred p] (r : σ → σ) (m : Prog σ α) : Prog σ α := do
  let a ← m
  if p a then modify r
  return a

section

variable {p : α → Prop} [DecidablePred p] {r : σ → σ}

theorem note_value (h : m s = (.value a, s')) :
    note p r m s = (.value a, if p a then r s' else s') := by
  rw [note, bind_value h]
  split
  · rfl
  · rfl

theorem note_pos (h : m s = (.value a, s')) (hp : p a) : note p r m s = (.value a, r s') := by
  rw [note_value h, if_pos hp]

theorem note_neg (h : m s = (.value a, s')) (hp : ¬p a) : note p r m s = (.value a, s') := by
  rw [note_value h, if_neg hp]

theorem note_stop (h : m s = (.stop e, s')) : note p r m s = (.stop e, s') := by
  rw [note, bind_stop h]

theorem Within.note {S : Stop → Prop} (hm : Within S m) : Within S (note p r m) :=
  .bind hm fun a => .ite (.bind (.modify r) fun _ => .pure a) (.pure a)

theorem Keeps.note (hR : ∀ {s₁ s₂ s₃}, R s₁ s₂ → R s₂ s₃ → R s₁ s₃) (hm : Keeps R m)
    (hr : ∀ s, R s (r s)) : Keeps R (note p r m) := by
  intro s
  rcases h : m s with ⟨a | e, s'⟩
  · rw [note_value h]
    split
    · exact hR (hm.run h) (hr s')
    · exact hm.run h
  · rw [note_stop h]
    exact hm.run h

end

/-- Without a part of its state `m'` runs as `m` does. -/
def Over {τ : Type} (get : τ → σ) (m' : Prog τ α) (m : Prog σ α) : Prop :=
  ∀ t, (m' t).1 = (m (get t)).1 ∧ get (m' t).2 = (m (get t)).2

section

variable {τ : Type} {get : τ → σ} {m' : Prog τ α} {f' : α → Prog τ β}

theorem Over.pure (a : α) : Over get (Pure.pure a) (Pure.pure a) := fun _ => ⟨rfl, rfl⟩

theorem Over.halt (e : Stop) : Over get (Prog.halt e : Prog τ α) (Prog.halt e) :=
  fun _ => ⟨rfl, rfl⟩

theorem Over.zoom {set : τ → σ → τ} (hset : ∀ t s, get (set t s) = s) (m : Prog σ α) :
    Over get (Prog.zoom get set m) m := fun _ => ⟨rfl, hset _ _⟩

theorem Over.bind (hm : Over get m' m) (hf : ∀ a, Over get (f' a) (f a)) :
    Over get (m' >>= f') (m >>= f) := by
  intro t
  obtain ⟨ho, hs⟩ := hm t
  rcases h' : m' t with ⟨a | e, t'⟩
  · rw [h'] at ho hs
    have h : m (get t) = (.value a, get t') := Prod.ext ho.symm hs.symm
    rw [bind_value h', bind_value h]
    exact hf a t'
  · rw [h'] at ho hs
    have h : m (get t) = (.stop e, get t') := Prod.ext ho.symm hs.symm
    rw [bind_stop h', bind_stop h]
    exact ⟨rfl, rfl⟩

theorem Over.ite {p : Prop} [Decidable p] {m₁' m₂' : Prog τ α} {m₁ m₂ : Prog σ α}
    (h₁ : Over get m₁' m₁) (h₂ : Over get m₂' m₂) :
    Over get (if p then m₁' else m₂') (if p then m₁ else m₂) := by
  split
  · exact h₁
  · exact h₂

/-- What is on record besides is forgotten. -/
theorem Over.note {p : α → Prop} [DecidablePred p] {r : τ → τ} (hr : ∀ t, get (r t) = get t)
    (hm : Over get m' m) : Over get (note p r m') m := by
  intro t
  obtain ⟨ho, hs⟩ := hm t
  rcases h' : m' t with ⟨a | e, t'⟩
  · rw [h'] at ho hs
    rw [note_value h']
    refine ⟨ho, ?_⟩
    split
    · exact (hr t').trans hs
    · exact hs
  · rw [h'] at ho hs
    rw [note_stop h']
    exact ⟨ho, hs⟩

end

end Prog

end PotatoOS
