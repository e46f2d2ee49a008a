/-
PotatoOS/Loop.lean

Loops that follow links.

A loop with a step budget looks at one node in each round and goes on at the
node that a link names, if there is one.  `Prog.Loop` says so for a program,
in all states that satisfy an invariant; the data beside the node (a counter,
a buffer) may change from round to round.  Then the loop ends exactly when
its walk along the links does (`Loop.halts_iff_chain`), and over finitely many
nodes exactly when the walk does not come back (`Loop.halts_iff`).
-/
import PotatoOS.Prog
import PotatoOS.Chain

namespace PotatoOS.Prog

variable {σ β ι α : Type}

/-- The program follows the links from node to node, one in each round. -/
structure Loop (F : Nat → ι → Prog σ β) (node : ι → α) (link : α → Option α)
    (Inv : σ → Prop) : Prop where
  none_left : ∀ i s, (F 0 i s).1 = .stop .exhausted
  round : ∀ {i s b}, Inv s → link (node i) = some b →
    ∃ j s', node j = b ∧ Inv s' ∧ ∀ fuel, F (fuel + 1) i s = F fuel j s'
  last : ∀ {i s}, Inv s → link (node i) = none → Halts (fun fuel => F fuel i) s

namespace Loop

variable {F : Nat → ι → Prog σ β} {node : ι → α} {link : α → Option α} {Inv : σ → Prop}
  {i : ι} {s : σ}

theorem halts_of_chain (h : Loop F node link Inv) {l : List α} (hs : Inv s)
    (hl : ChainFrom link (node i) l) : Halts (fun fuel => F fuel i) s := by
  generalize ha : node i = a at hl
  induction hl generalizing i s with
  | last hn => exact h.last hs (ha ▸ hn)
  | cons hn _ ih =>
      obtain ⟨j, s', hj, hs', hround⟩ := h.round hs (ha ▸ hn)
      obtain ⟨fuel, hfuel⟩ := ih hs' hj
      refine ⟨fuel + 1, ?_⟩
      show (F (fuel + 1) i s).1 ≠ .stop .exhausted
      rwa [hround fuel]

/-- Without an end the loop uses up every budget. -/
theorem exhausted_of_no_chain (h : Loop F node link Inv) (hs : Inv s)
    (hno : ¬ ∃ l, ChainFrom link (node i) l) (fuel : Nat) :
    (F fuel i s).1 = .stop .exhausted := by
  induction fuel generalizing i s with
  | zero => exact h.none_left i s
  | succ fuel ih =>
      rcases hn : link (node i) with - | b
      · exact absurd ⟨_, .last hn⟩ hno
      · obtain ⟨j, s', rfl, hs', hround⟩ := h.round hs hn
        rw [hround fuel]
        exact ih hs' fun ⟨l, hl⟩ => hno ⟨_, .cons hn hl⟩

theorem halts_iff_chain (h : Loop F node link Inv) (hs : Inv s) :
    Halts (fun fuel => F fuel i) s ↔ ∃ l, ChainFrom link (node i) l := by
  constructor
  · rintro ⟨fuel, hfuel⟩
    by_contra hno
    exact hfuel (h.exhausted_of_no_chain hs hno fuel)
  · rintro ⟨l, hl⟩
    exact h.halts_of_chain hs hl

/-- Over finitely many nodes the loop ends exactly when it does not come back. -/
theorem halts_iff (h : Loop F node link Inv) (hs : Inv s) {S : Set α} (hS : S.Finite)
    (hin : ∀ a b, link a = some b → a ∈ S) :
    Halts (fun fuel => F fuel i) s ↔ ¬ Cycles link (node i) :=
  (h.halts_iff_chain hs).trans (ChainFrom.exists_iff_not_cycles hS hin _)

end Loop

end PotatoOS.Prog
