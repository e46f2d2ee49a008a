/-
PotatoOS/Chain.lean

Chains along a successor function.

`ChainFrom next a l` says that following `next` from `a` visits exactly the
nodes of `l`, in order, and ends: the last node has no successor.  Because
the successor is a function, the list is determined by its first node
(`ChainFrom.unique`) and a chain that ends never comes back to a node it has
left (`ChainFrom.nodup`), so acyclicity is not a hypothesis anywhere.

The two facts that a linked structure on disk needs are the frame rule
(`ChainFrom.congr`: only the successors of the chain's own nodes matter)
and the extension rule (`ChainFrom.snoc`: linking a fresh node behind the
last one appends it).  `Chains` is a family of chains that do not meet, and
`Chains.extend` the extension rule for one of them.

Over finitely many nodes a walk ends exactly when it never comes back to a
node (`exists_iff_not_cycles`).
-/
import Mathlib.Tactic

namespace PotatoOS

variable {α : Type*} {next next' : α → Option α}

/-- Following `next` from `a` visits the nodes of `l` in order and ends. -/
inductive ChainFrom (next : α → Option α) : α → List α → Prop
  | last {a : α} : next a = none → ChainFrom next a [a]
  | cons {a b : α} {l : List α} :
      next a = some b → ChainFrom next b l → ChainFrom next a (a :: l)

namespace ChainFrom

variable {a b t n : α} {l l' : List α}

theorem ne_nil (h : ChainFrom next a l) : l ≠ [] := by
  cases h <;> simp

theorem head_mem (h : ChainFrom next a l) : a ∈ l := by
  cases h <;> simp

theorem head_eq (h : ChainFrom next a (b :: l)) : b = a := by
  cases h <;> rfl

/-- The first node determines the chain. -/
theorem unique (h : ChainFrom next a l) (h' : ChainFrom next a l') : l = l' := by
  induction h generalizing l' with
  | last hn =>
      cases h' with
      | last _ => rfl
      | cons hb _ => rw [hn] at hb; cases hb
  | cons hb _ ih =>
      cases h' with
      | last hn => rw [hn] at hb; cases hb
      | cons hb' hl' =>
          rw [hb] at hb'
          obtain rfl := Option.some.inj hb'
          rw [ih hl']

/-- Every node of a chain starts a chain that the first one ends in. -/
theorem suffix_of_mem (h : ChainFrom next a l) (hb : b ∈ l) :
    ∃ l', ChainFrom next b l' ∧ l' <:+ l := by
  induction h with
  | last hn =>
      obtain rfl := List.mem_singleton.mp hb
      exact ⟨_, .last hn, List.suffix_refl _⟩
  | cons hc hl ih =>
      rcases List.mem_cons.mp hb with rfl | hb
      · exact ⟨_, .cons hc hl, List.suffix_refl _⟩
      · obtain ⟨l', hl', hs⟩ := ih hb
        exact ⟨l', hl', hs.trans (List.suffix_cons _ _)⟩

/-- A chain that ends visits no node twice. -/
theorem nodup (h : ChainFrom next a l) : l.Nodup := by
  induction h with
  | last hn => simp
  | @cons a b l hc hl ih =>
      refine List.nodup_cons.mpr ⟨fun ha => ?_, ih⟩
      -- a second visit to `a` would start the whole chain again, inside its own tail
      obtain ⟨l', hl', hs⟩ := hl.suffix_of_mem ha
      have e := hl'.unique (.cons hc hl)
      have := hs.length_le
      rw [e, List.length_cons] at this
      omega

/-- Only the successors of the chain's own nodes matter. -/
theorem congr (h : ChainFrom next a l) (hn : ∀ c ∈ l, next' c = next c) :
    ChainFrom next' a l := by
  induction h with
  | last h₀ => exact .last (by rw [hn _ (by simp), h₀])
  | cons hc _ ih =>
      refine .cons (by rw [hn _ (by simp), hc]) (ih fun c hcl => hn c ?_)
      exact List.mem_cons_of_mem _ hcl

/-- A node with a successor is followed by it in the chain. -/
theorem next_mem (h : ChainFrom next a l) (hb : b ∈ l) (hn : next b = some n) : n ∈ l := by
  obtain ⟨l', hl', hs⟩ := h.suffix_of_mem hb
  cases hl' with
  | last h₀ => rw [h₀] at hn; cases hn
  | cons hc hl =>
      rw [hc] at hn
      obtain rfl := Option.some.inj hn
      exact hs.subset (List.mem_cons_of_mem _ hl.head_mem)

/-- Linking a node without successor behind the last one appends it. -/
theorem snoc (h : ChainFrom next a l) (hne : l ≠ [])
    (hold : ∀ c ∈ l, c ≠ l.getLast hne → next' c = next c)
    (hlink : next' (l.getLast hne) = some n) (hn : next' n = none) :
    ChainFrom next' a (l ++ [n]) := by
  have hnd := h.nodup
  induction h with
  | last _ => exact .cons hlink (.last hn)
  | @cons a b l hc hl ih =>
      have hg : (a :: l).getLast hne = l.getLast hl.ne_nil := List.getLast_cons hl.ne_nil
      have ha : a ≠ (a :: l).getLast hne := by
        rw [hg]
        rintro e
        exact (List.nodup_cons.mp hnd).1 (e ▸ List.getLast_mem hl.ne_nil)
      refine .cons (by rw [hold a (by simp) ha, hc]) (ih hl.ne_nil ?_ ?_ hl.nodup)
      · intro c hcl hcg
        exact hold c (List.mem_cons_of_mem _ hcl) (by rwa [hg])
      · rw [← hg, hlink]

end ChainFrom

/-! ### Families of chains -/

namespace ChainFrom

variable {a b : α} {l : List α}

theorem next_getLast (h : ChainFrom next a l) : next (l.getLast h.ne_nil) = none := by
  induction h with
  | last hn => exact hn
  | cons _ hl ih =>
      rw [List.getLast_cons hl.ne_nil]
      exact ih

/-- Each node of a chain is followed by its successor. -/
theorem next_eq {l₁ l₂ : List α} {n : α} (h : ChainFrom next a (l₁ ++ b :: n :: l₂)) :
    next b = some n := by
  induction l₁ generalizing a with
  | nil =>
      cases h with
      | cons hc hl =>
          rw [hl.head_eq]
          exact hc
  | cons x l₁ ih =>
      rcases hr : l₁ ++ b :: n :: l₂ with - | ⟨y, r⟩
      · cases l₁ <;> cases hr
      · rw [List.cons_append, hr] at h
        cases h with
        | cons _ hl => exact ih (hr ▸ hl)

/-- Only the last node of a chain has no successor. -/
theorem eq_getLast (h : ChainFrom next a l) (hb : b ∈ l) (hn : next b = none) :
    b = l.getLast h.ne_nil := by
  obtain ⟨l', hl', hs⟩ := h.suffix_of_mem hb
  cases hl' with
  | last _ => exact (hs.getLast (List.cons_ne_nil _ _)).trans rfl
  | cons hc _ =>
      rw [hn] at hc
      cases hc

end ChainFrom

/-- The lists of `S` are chains, and no two of them meet. -/
structure Chains (next : α → Option α) (S : Set (List α)) : Prop where
  chain : ∀ l ∈ S, ∃ a, ChainFrom next a l
  disjoint : S.Pairwise List.Disjoint

/-- Linking a fresh node behind the last one of a chain. -/
theorem Chains.extend {S : Set (List α)} {l : List α} {n : α} (h : Chains next S) (hl : l ∈ S)
    (hne : l ≠ []) (hfresh : ∀ l' ∈ S, n ∉ l')
    (hold : ∀ l' ∈ S, ∀ c ∈ l', c ≠ l.getLast hne → next' c = next c)
    (hlink : next' (l.getLast hne) = some n) (hn : next' n = none) :
    Chains next' (insert (l ++ [n]) (S \ {l})) := by
  have hapart : ∀ l' ∈ S \ {l}, List.Disjoint (l ++ [n]) l' := by
    rintro l' ⟨hl', hne'⟩ c hc hc'
    rcases List.mem_append.mp hc with hc | hc
    · exact h.disjoint hl hl' (Ne.symm hne') hc hc'
    · rw [List.mem_singleton.mp hc] at hc'
      exact hfresh l' hl' hc'
  constructor
  · rintro l' (rfl | ⟨hl', hne'⟩)
    · obtain ⟨a, hch⟩ := h.chain l hl
      exact ⟨a, hch.snoc hne (hold l hl) hlink hn⟩
    · obtain ⟨a, hch⟩ := h.chain l' hl'
      refine ⟨a, hch.congr fun c hc => hold l' hl' c hc fun e => ?_⟩
      exact h.disjoint hl hl' (Ne.symm hne') (List.getLast_mem hne) (e ▸ hc)
  · rintro l₁ (rfl | h₁) l₂ (rfl | h₂) hne'
    · exact absurd rfl hne'
    · exact hapart l₂ h₂
    · exact (hapart l₁ h₁).symm
    · exact h.disjoint h₁.1 h₂.1 hne'

/-! ### Walks that do not end -/

/-- One step along `next`. -/
def Follows (next : α → Option α) (a b : α) : Prop := next a = some b

/-- The walk from `a` comes to a node that leads back to itself. -/
def Cycles (next : α → Option α) (a : α) : Prop :=
  ∃ b, Relation.ReflTransGen (Follows next) a b ∧ Relation.TransGen (Follows next) b b

namespace ChainFrom

variable {a b : α} {l : List α}

/-- A chain has all nodes that the walk comes to. -/
theorem mem_of_reaches (h : ChainFrom next a l)
    (hr : Relation.ReflTransGen (Follows next) a b) : b ∈ l := by
  induction hr with
  | refl => exact h.head_mem
  | tail _ hstep ih => exact h.next_mem ih hstep

theorem not_cycles (h : ChainFrom next a l) : ¬ Cycles next a := by
  rintro ⟨b, hab, hbb⟩
  obtain ⟨l', hl', -⟩ := h.suffix_of_mem (h.mem_of_reaches hab)
  obtain ⟨c, hbc, hcb⟩ := Relation.TransGen.head'_iff.mp hbb
  cases hl' with
  | last hn =>
      rw [Follows, hn] at hbc
      cases hbc
  | cons hc hl =>
      -- `b` would stand in the chain of its own successor
      rw [Follows, hc] at hbc
      obtain rfl := Option.some.inj hbc
      exact (List.nodup_cons.mp (ChainFrom.cons hc hl).nodup).1 (hl.mem_of_reaches hcb)

/-- Over finitely many nodes a walk that never comes back ends. -/
theorem exists_of_not_cycles {S : Set α} (hS : S.Finite) (hin : ∀ a b, next a = some b → a ∈ S)
    (h : ¬ Cycles next a) : ∃ l, ChainFrom next a l := by
  by_contra hno
  -- a node without chain has a successor without chain
  have hnext : ∀ x : { x // ¬ ∃ l, ChainFrom next x l },
      ∃ y : { y // ¬ ∃ l, ChainFrom next y l }, next x.1 = some y.1 := by
    rintro ⟨x, hx⟩
    rcases hn : next x with - | y
    · exact absurd ⟨_, .last hn⟩ hx
    · exact ⟨⟨y, fun ⟨l, hl⟩ => hx ⟨_, .cons hn hl⟩⟩, rfl⟩
  choose f hf using hnext
  let walk : Nat → α := fun n => (f^[n] ⟨a, hno⟩ : { x // ¬ ∃ l, ChainFrom next x l })
  have hstep : ∀ n, next (walk n) = some (walk (n + 1)) := by
    intro n
    show next (f^[n] ⟨a, hno⟩).1 = some (f^[n + 1] ⟨a, hno⟩).1
    rw [hf, Function.iterate_succ_apply']
  have hreach : ∀ n k, Relation.ReflTransGen (Follows next) (walk n) (walk (n + k)) := by
    intro n k
    induction k with
    | zero => exact .refl
    | succ k ih => exact ih.tail (hstep (n + k))
  obtain ⟨i, j, hij, heq⟩ := hS.exists_lt_map_eq_of_forall_mem fun n => hin _ _ (hstep n)
  apply h
  refine ⟨walk i, ?_, ?_⟩
  · have := hreach 0 i
    rwa [Nat.zero_add] at this
  · have := hreach (i + 1) (j - (i + 1))
    rw [Nat.add_sub_cancel' hij, ← heq] at this
    exact .head' (hstep i) this

theorem exists_iff_not_cycles {S : Set α} (hS : S.Finite)
    (hin : ∀ a b, next a = some b → a ∈ S) (a : α) :
    (∃ l, ChainFrom next a l) ↔ ¬ Cycles next a :=
  ⟨fun ⟨_, hl⟩ => hl.not_cycles, exists_of_not_cycles hS hin⟩

end ChainFrom

end PotatoOS
