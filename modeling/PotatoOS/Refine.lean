/-
PotatoOS/Refine.lean

Programs that carry out others on a state below.

A state below shows a state above it (`abs`), and a program below has a budget.
`Refines` is soundness: what is returned below is returned above, and leads to
the state that is shown.  `Realizes` is completeness: what is returned above is
returned below with enough budget, from the states that are ready for it.  A
program below that does both `Implements` the one above.

The rules follow the constructs that programs are made of, so that a function
and its counterpart below are compared statement by statement.
-/
import PotatoOS.Prog

namespace PotatoOS.Prog

variable {σ τ α β : Type}

/-- A run on a part of the state that returns. -/
theorem zoom_eq_value {get : τ → σ} {set : τ → σ → τ} {m : Prog σ α} {t t' : τ} {a : α}
    (h : zoom get set m t = (.value a, t')) :
    ∃ s', m (get t) = (.value a, s') ∧ t' = set t s' := by
  have hvalue : (m (get t)).1 = .value a := congrArg Prod.fst h
  exact ⟨(m (get t)).2, Prod.ext hvalue rfl, (congrArg Prod.snd h).symm⟩

/-- What is returned below is returned above. -/
def Refines (abs : τ → σ) (m : Prog σ α) (F : Nat → Prog τ α) : Prop :=
  ∀ {fuel t a t'}, F fuel t = (.value a, t') → m (abs t) = (.value a, abs t')

/-- What is returned above is returned below, from a state that is ready. -/
def Realizes (abs : τ → σ) (ready : τ → Prop) (m : Prog σ α) (F : Nat → Prog τ α) : Prop :=
  ∀ {t a s'}, ready t → m (abs t) = (.value a, s') →
    Settles F t fun b t' => b = a ∧ abs t' = s' ∧ ready t'

/-- Both directions: what the lower level returns the upper one does, and from a ready state the
lower level returns whenever the upper one does. -/
structure Implements (abs : τ → σ) (ready : τ → Prop) (m : Prog σ α) (F : Nat → Prog τ α) :
    Prop where
  refines : Refines abs m F
  realizes : Realizes abs ready m F

namespace Implements

variable {abs : τ → σ} {ready : τ → Prop} {m m' : Prog σ α} {F F' : Nat → Prog τ α}
  {f : α → Prog σ β} {G : Nat → α → Prog τ β}

theorem pure (a : α) : Implements abs ready (Pure.pure a) fun _ => Pure.pure a where
  refines h := by
    cases h
    rfl
  realizes ht h := by
    cases h
    exact .pure ⟨rfl, rfl, ht⟩

theorem bind (hm : Implements abs ready m F)
    (hf : ∀ a, Implements abs ready (f a) fun fuel => G fuel a) :
    Implements abs ready (m >>= f) fun fuel => F fuel >>= G fuel where
  refines h := by
    obtain ⟨a, t₁, h₁, h₂⟩ := bind_eq_value h
    rw [bind_value (hm.refines h₁)]
    exact (hf a).refines h₂
  realizes ht h := by
    obtain ⟨a, s₁, h₁, h₂⟩ := bind_eq_value h
    refine .bind (hm.realizes ht h₁) ?_
    rintro b t₁ ⟨rfl, rfl, ht₁⟩
    exact (hf b).realizes ht₁ h₂

theorem ite (q : Prop) [Decidable q] (h : Implements abs ready m F)
    (h' : Implements abs ready m' F') :
    Implements abs ready (if q then m else m') fun fuel => if q then F fuel else F' fuel := by
  by_cases hq : q
  · simpa only [if_pos hq] using h
  · simpa only [if_neg hq] using h'

/-- A test that ends the run in front of what follows. -/
theorem guard (q : Prop) [Decidable q] {e : Stop} {k : α → Prog σ β} {K : Nat → α → Prog τ β}
    {n : Prog σ β} {N : Nat → Prog τ β} (h : Implements abs ready n N) :
    Implements abs ready (if q then Prog.halt e >>= k else n)
      fun fuel => if q then Prog.halt e >>= K fuel else N fuel := by
  refine .ite q ⟨fun h => ?_, fun _ h => ?_⟩ h
  · cases h
  · cases h

/-- A program on the part of the state that both levels have. -/
theorem zoom {set : τ → σ → τ}
    (hset : ∀ {t a s'}, m (abs t) = (.value a, s') → abs (set t s') = s')
    (hready : ∀ {t s'}, ready t → ready (set t s')) :
    Implements abs ready m fun _ => Prog.zoom abs set m where
  refines h := by
    obtain ⟨s', hrun, rfl⟩ := zoom_eq_value h
    rw [hrun, hset hrun]
  realizes ht h := .of_eq (fun _ => zoom_run h) ⟨rfl, hset h, hready ht⟩

/-- A program that only looks at that part. -/
theorem gets {f : σ → α} {g : τ → α} (h : ∀ t, g t = f (abs t)) :
    Implements abs ready (Prog.gets f) fun _ => Prog.gets g where
  refines {_ t a t'} hrun := by
    cases hrun
    rw [h]
    rfl
  realizes {t a s'} ht hrun := by
    cases hrun
    exact .of_eq (fun _ => rfl) ⟨h t, rfl, ht⟩

end Implements

end PotatoOS.Prog
