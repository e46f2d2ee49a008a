/-
PotatoOS/Tree.lean

The directories of a volume, and what it means that its chains do not mix.

The directories are the root directory and, from it on, the chains of the
live entries with the directory attribute (`IsDir`).  An entry is live when
it is in use and stands before the end mark of its directory (`LiveIn`).
Every live entry owns the chain it refers to, the volume itself owns the
chain of the root directory; a volume is tidy when all these chains end and
no cluster has two owners.

`Inserted` is the effect of a `putFile` on the volume, in these terms: one
directory has one more entry, whose chain was free before, and nothing else
has changed (`Changed` says which clusters have).  Main results:
`Inserted.tidy` and `Inserted.uniqueNames`.
-/
import PotatoOS.Frame

namespace PotatoOS

/-- Slot `k` of cluster `a` is a live entry of the directory with clusters `l`. -/
structure LiveIn (g : Globals) (d : Disk) (l : List Nat) (a k : Nat) : Prop where
  reached : ∃ pre post, l = pre ++ a :: post ∧ ∀ b ∈ pre, ∀ j < 16, ¬ IsEnd (slot g d b j)
  before : ∀ j < k, ¬ IsEnd (slot g d a j)
  lt : k < 16
  used : ¬ Vacant (slot g d a k)

/-- The directory that starts at cluster `c` belongs to the volume. -/
inductive IsDir (g : Globals) (d : Disk) : Nat → Prop
  | root : IsDir g d g.rootCluster
  | sub {c a k : Nat} {l : List Nat} : IsDir g d c → IsChain g d c l → LiveIn g d l a k →
      (slot g d a k).isDirectory → IsDir g d (getClusterFromEntry g (slot g d a k))

/-- Slot `k` of cluster `a` is a live entry of the volume. -/
def LiveAt (g : Globals) (d : Disk) (a k : Nat) : Prop :=
  ∃ c l, IsDir g d c ∧ IsChain g d c l ∧ LiveIn g d l a k

/-- The chain of every live entry ends, and shares no cluster with the chain
of another live entry. -/
structure WellFormed (g : Globals) (d : Disk) : Prop where
  ends : ∀ a k, LiveAt g d a k → ∃ l, IsChain g d (getClusterFromEntry g (slot g d a k)) l
  apart : ∀ a k a' k' l l', LiveAt g d a k → LiveAt g d a' k' → (a, k) ≠ (a', k') →
    IsChain g d (getClusterFromEntry g (slot g d a k)) l →
    IsChain g d (getClusterFromEntry g (slot g d a' k')) l' → List.Disjoint l l'

/-- The chain of the root directory ends, and shares no cluster with the chain
of a live entry. -/
structure RootApart (g : Globals) (d : Disk) : Prop where
  ends : ∃ l, IsChain g d g.rootCluster l
  apart : ∀ a k l l', LiveAt g d a k → IsChain g d g.rootCluster l →
    IsChain g d (getClusterFromEntry g (slot g d a k)) l' → List.Disjoint l l'

/-- No directory has two live entries with the same name. -/
def UniqueNames (g : Globals) (d : Disk) : Prop :=
  ∀ c l, IsDir g d c → IsChain g d c l → ∀ a k a' k', LiveIn g d l a k → LiveIn g d l a' k' →
    (slot g d a k).fileName = (slot g d a' k').fileName → (a, k) = (a', k')

/-! ### Owners -/

/-- Who refers to a chain. -/
inductive Owner where
  | root
  | entry (a k : Nat)
  deriving DecidableEq, Repr

/-- The owner refers to the chain that starts at `c`. -/
def Owns (g : Globals) (d : Disk) : Owner → Nat → Prop
  | .root, c => c = g.rootCluster
  | .entry a k, c => LiveAt g d a k ∧ c = getClusterFromEntry g (slot g d a k)

/-- All chains that are referred to end, and no cluster has two owners. -/
structure Tidy (g : Globals) (d : Disk) : Prop where
  ends : ∀ {o c}, Owns g d o c → ∃ l, IsChain g d c l
  apart : ∀ {o o' c c' l l'}, Owns g d o c → Owns g d o' c' → o ≠ o' → IsChain g d c l →
    IsChain g d c' l' → List.Disjoint l l'

section

variable {g : Globals} {d : Disk} {o o' : Owner} {c c' a k : Nat} {l l' : List Nat}

theorem tidy_iff : Tidy g d ↔ WellFormed g d ∧ RootApart g d := by
  constructor
  · intro h
    -- the root and the live entries are the owners
    have hroot : Owns g d .root g.rootCluster := rfl
    have hentry : ∀ a k, LiveAt g d a k →
        Owns g d (.entry a k) (getClusterFromEntry g (slot g d a k)) := fun _ _ hl => ⟨hl, rfl⟩
    refine ⟨⟨fun a k hl => h.ends (hentry a k hl), fun a k a' k' l l' hl hl' hne => ?_⟩,
      ⟨h.ends hroot, fun a k l l' hl => ?_⟩⟩
    · exact h.apart (hentry a k hl) (hentry a' k' hl') fun e => hne (by cases e; rfl)
    · exact h.apart hroot (hentry a k hl) (by simp)
  · rintro ⟨hw, hr⟩
    refine ⟨fun {o c} ho => ?_, fun {o o' c c' l l'} ho ho' hne hch hch' => ?_⟩
    · cases o with
      | root => exact ho ▸ hr.ends
      | entry a k => exact ho.2 ▸ hw.ends a k ho.1
    · -- two owners: the root and an entry in either order, or two entries
      cases o with
      | root =>
          cases o' with
          | root => exact absurd rfl hne
          | entry a' k' => exact hr.apart a' k' l l' ho'.1 (ho ▸ hch) (ho'.2 ▸ hch')
      | entry a k =>
          cases o' with
          | root => exact (hr.apart a k l' l ho.1 (ho' ▸ hch') (ho.2 ▸ hch)).symm
          | entry a' k' =>
              refine hw.apart a k a' k' l l' ho.1 ho'.1 (fun e => hne ?_) (ho.2 ▸ hch)
                (ho'.2 ▸ hch')
              cases e
              rfl

theorem Owns.unique_cluster (h : Owns g d o c) (h' : Owns g d o c') : c = c' := by
  cases o with
  | root => exact h.trans h'.symm
  | entry a k => exact h.2.trans h'.2.symm

/-- Every directory has an owner. -/
theorem IsDir.owned (h : IsDir g d c) : ∃ o, Owns g d o c := by
  cases h with
  | root => exact ⟨.root, rfl⟩
  | @sub c a k l hdir hch hlive _ => exact ⟨.entry a k, ⟨c, l, hdir, hch, hlive⟩, rfl⟩

/-- Two owners of one cluster are the same. -/
theorem Tidy.owner_unique (ht : Tidy g d) (ho : Owns g d o c) (ho' : Owns g d o' c')
    (hch : IsChain g d c l) (hch' : IsChain g d c' l') (ha : a ∈ l) (ha' : a ∈ l') : o = o' := by
  by_contra hne
  exact ht.apart ho ho' hne hch hch' ha ha'

end

/-! ### Clusters that a change does not touch -/

section

variable {g : Globals} {d d' : Disk} {l : List Nat} {a k : Nat}

/-- Liveness depends on the data of the directory only. -/
theorem LiveIn.congr (h : LiveIn g d l a k) (hd : ∀ b ∈ l, data g d' b = data g d b) :
    LiveIn g d' l a k := by
  obtain ⟨⟨pre, post, rfl, hpre⟩, hbefore, hlt, hused⟩ := h
  have ha := hd a (by simp)
  refine ⟨⟨pre, post, rfl, fun b hb j hj => ?_⟩, fun j hj => ?_, hlt, ?_⟩
  · rw [slot_of_data (hd b (by simp [hb]))]
    exact hpre b hb j hj
  · rw [slot_of_data ha]
    exact hbefore j hj
  · rw [slot_of_data ha]
    exact hused

theorem LiveIn.mem (h : LiveIn g d l a k) : a ∈ l := by
  obtain ⟨⟨pre, post, rfl, -⟩, -⟩ := h
  simp

/-- A directory whose first slot is an end mark has no live entry. -/
theorem not_liveIn_of_end {x : Nat} (hend : IsEnd (slot g d x 0)) :
    ¬ LiveIn g d (x :: l) a k := by
  rintro ⟨⟨pre, post, hsplit, hpre⟩, hbefore, hlt, hused⟩
  rcases pre with - | ⟨b, pre⟩
  · obtain ⟨rfl, -⟩ := List.cons_eq_cons.mp hsplit
    rcases Nat.eq_zero_or_pos k with rfl | hk
    · exact hused (.inr hend)
    · exact hbefore 0 hk hend
  · obtain ⟨rfl, -⟩ := List.cons_eq_cons.mp hsplit
    exact hpre x List.mem_cons_self 0 (by decide) hend

end

/-! ### Live entries and searches -/

section

variable {g : Globals} {d : Disk} {l : List Nat} {a k : Nat} {name : Name} {e : DirectoryEntry}

/-- Where a slot of a directory lies. -/
theorem slots_eq_append {u w : List DirectoryEntry} (h : slots g d l = u ++ e :: w) :
    ∃ pre a post, l = pre ++ a :: post ∧
      u = slots g d pre ++ (clusterSlots g d a).take (u.length % 16) ∧
      e = slot g d a (u.length % 16) := by
  induction l generalizing u with
  | nil => simp [slots] at h
  | cons a l ih =>
      rw [slots_cons] at h
      have hlen := clusterSlots_length g d a
      rcases Nat.lt_or_ge u.length 16 with hlt | hge
      · have hk : u.length % 16 = u.length := Nat.mod_eq_of_lt hlt
        have hsplit := clusterSlots_split g d a hlt
        have htake : ((clusterSlots g d a).take u.length).length = u.length := by
          rw [List.length_take, hlen]
          omega
        rw [hsplit, List.append_assoc, List.cons_append] at h
        obtain ⟨hu, htail⟩ := List.append_inj h htake
        exact ⟨[], a, l, rfl, by rw [hk, hu]; rfl, by rw [hk]; exact (List.cons.inj htail).1.symm⟩
      · -- the slot lies behind the first cluster
        obtain ⟨u', rfl⟩ : ∃ u', u = clusterSlots g d a ++ u' :=
          (List.prefix_of_prefix_length_le (List.prefix_append _ _) (h ▸ List.prefix_append u _)
            (by rw [hlen]; exact hge)).imp fun _ h => h.symm
        rw [List.append_assoc] at h
        obtain ⟨pre, b, post, rfl, hu, he⟩ := ih (List.append_cancel_left h)
        have hmod : (clusterSlots g d a ++ u').length % 16 = u'.length % 16 := by
          rw [List.length_append, hlen, Nat.add_mod_left]
        refine ⟨a :: pre, b, post, rfl, ?_, by rw [hmod]; exact he⟩
        rw [hmod, slots_cons, List.append_assoc, ← hu]

/-- A live entry is found under its name. -/
theorem LiveIn.finds (h : LiveIn g d l a k) (hname : (slot g d a k).fileName = name) :
    Finds name (slots g d l) := by
  obtain ⟨⟨pre, post, rfl, hpre⟩, hbefore, hlt, hused⟩ := h
  -- in front of the entry there is no end mark
  have hstop : lookup name (slots g d pre ++ (clusterSlots g d a).take k) ≠ .stop := by
    refine scan_ne_stop fun v hv hend => ?_
    rcases List.mem_append.mp hv with hv | hv
    · obtain ⟨b, hb, hv⟩ := List.mem_flatMap.mp hv
      obtain ⟨j, hj, rfl⟩ := List.mem_map.mp hv
      exact hpre b hb j (List.mem_range.mp hj) hend
    · obtain ⟨j, hj, rfl⟩ := List.mem_take_iff_getElem.mp hv
      refine hbefore j (by omega) ?_
      simpa [clusterSlots] using hend
  rw [slots_split g d pre a post hlt]
  rcases hu : lookup name (slots g d pre ++ (clusterSlots g d a).take k) with i | - | -
  · refine ⟨i, ?_⟩
    rw [lookup_append, hu]
    rfl
  · exact absurd hu hstop
  · rw [finds_append_iff hu]
    have hend : ¬ IsEnd (slot g d a k) := fun hend => hused (.inr hend)
    have hhit : HasName name (slot g d a k) := hname
    exact ⟨0, by rw [lookup, scan, if_neg hend, if_pos hhit]⟩

/-- What a search finds is a live entry. -/
theorem live_of_searchResult (hl : LegalName name)
    (h : searchResult name (slots g d l) = .ok (e, k)) :
    ∃ a, LiveIn g d l a k ∧ slot g d a k = e ∧ e.fileName = name := by
  rw [searchResult] at h
  rcases hlook : lookup name (slots g d l) with i | - | -
  · rw [hlook] at h
    obtain ⟨u, v, w, hslots, rfl, hend, hname, hu⟩ := scan_hit_split hlook
    obtain ⟨rfl, rfl⟩ : v = e ∧ u.length % 16 = k := by
      rw [hslots] at h
      simpa using h
    -- the position in all slots is a cluster and a slot in it
    obtain ⟨pre, a, post, rfl, hu', rfl⟩ := slots_eq_append hslots
    refine ⟨a, ⟨⟨pre, post, rfl, fun b hb j hj => ?_⟩, fun j hj => ?_, ?_, ?_⟩, rfl, hname⟩
    · refine (hu _ ?_).1
      rw [hu']
      exact List.mem_append_left _ (List.mem_flatMap.mpr ⟨b, hb,
        List.mem_map.mpr ⟨j, List.mem_range.mpr hj, rfl⟩⟩)
    · refine (hu _ ?_).1
      rw [hu']
      refine List.mem_append_right _ (List.mem_take_iff_getElem.mpr ⟨j, ?_, ?_⟩)
      · rw [clusterSlots_length]
        omega
      · simp [clusterSlots]
    · omega
    · rintro (hfree | hend')
      · exact (neutral_of_free hl hfree).2 hname
      · exact hend hend'
  · rw [hlook] at h
    cases h
  · rw [hlook] at h
    cases h

end

/-! ### One more entry -/

/-- The directory with clusters `l` has become the one with clusters `l'`,
cluster `x` starts the chain `lx`, and no other cluster has changed. -/
structure Changed (g : Globals) (d d' : Disk) (c₀ : Nat) (l l' : List Nat) (x : Nat)
    (lx : List Nat) : Prop where
  old : IsChain g d c₀ l
  dir : IsDir g d c₀
  chain : IsChain g d' c₀ l'
  grown : ∀ b ∈ l', b ∈ l ∨ fatValue g d b = 0
  new : IsChain g d' x lx
  fresh : ∀ b ∈ lx, fatValue g d b = 0
  apart : List.Disjoint l' lx
  fat : ∀ b, g.InRange b → b ∉ l' → b ∉ lx → fatValue g d' b = fatValue g d b
  data : ∀ b, g.InRange b → b ∉ l' → b ∉ lx → data g d' b = data g d b

/-- Besides, slot `k` of cluster `c` is a new entry for this chain, and the
directory has no other live entry that it did not have before. -/
structure Inserted (g : Globals) (d d' : Disk) (c₀ : Nat) (l l' : List Nat) (c k x : Nat)
    (lx : List Nat) : Prop extends Changed g d d' c₀ l l' x lx where
  live : ∀ b j, LiveIn g d' l' b j →
    (b = c ∧ j = k) ∨ (LiveIn g d l b j ∧ slot g d' b j = slot g d b j)
  cluster : getClusterFromEntry g (slot g d' c k) = x
  empty : LiveIn g d' l' c k → (slot g d' c k).isDirectory → IsEnd (slot g d' x 0)

/-- The chains of the other owners are untouched. -/
theorem Changed.keeps {g : Globals} {d d' : Disk} {c₀ x : Nat} {l l' lx : List Nat}
    (hi : Changed g d d' c₀ l l' x lx) (ht : Tidy g d) {o : Owner} {b : Nat}
    {lo : List Nat} (ho : Owns g d o b) (hne : b ≠ c₀) (hch : IsChain g d b lo) :
    IsChain g d' b lo ∧ (∀ a ∈ lo, PotatoOS.data g d' a = PotatoOS.data g d a) ∧
      List.Disjoint lo l' ∧ List.Disjoint lo lx := by
  obtain ⟨oD, hoD⟩ := hi.dir.owned
  have hdis : List.Disjoint lo l := by
    refine ht.apart ho hoD (fun e => hne ?_) hch hi.old
    subst e
    exact ho.unique_cluster hoD
  have hl' : List.Disjoint lo l' := by
    intro a ha ha'
    rcases hi.grown a ha' with hl | hfree
    · exact hdis ha hl
    · exact hch.ne_free ha hfree
  have hlx : List.Disjoint lo lx := fun a ha hx => hch.ne_free ha (hi.fresh a hx)
  refine ⟨hch.congr fun a ha => ?_, fun a ha => ?_, hl', hlx⟩
  · exact hi.fat a (hch.inRange a ha) (fun h => hl' ha h) fun h => hlx ha h
  · exact hi.data a (hch.inRange a ha) (fun h => hl' ha h) fun h => hlx ha h

namespace Inserted

variable {g : Globals} {d d' : Disk} {c₀ c k x : Nat} {l l' lx : List Nat}

/-- A new directory that starts with an end mark has no live entry. -/
theorem not_live_new (hi : Inserted g d d' c₀ l l' c k x lx) (hend : IsEnd (slot g d' x 0))
    {a j : Nat} {lb : List Nat} (hch : IsChain g d' x lb) : ¬ LiveIn g d' lb a j := by
  obtain rfl := hch.chain.unique hi.new.chain
  rcases lb with - | ⟨y, lb⟩
  · exact absurd rfl hch.chain.ne_nil
  · obtain rfl := hch.head_eq
    exact not_liveIn_of_end hend

/-- A live entry of a directory that was there before is the new one, or it
was live before. -/
theorem live_back (hi : Inserted g d d' c₀ l l' c k x lx) (ht : Tidy g d) {b a j : Nat}
    {lb : List Nat} (hb : IsDir g d b) (hch : IsChain g d' b lb) (hl : LiveIn g d' lb a j) :
    (b = c₀ ∧ a = c ∧ j = k) ∨
      ∃ lo, IsChain g d b lo ∧ LiveIn g d lo a j ∧ slot g d' a j = slot g d a j := by
  obtain ⟨o, ho⟩ := hb.owned
  obtain ⟨lo, hlo⟩ := ht.ends ho
  by_cases hbc : b = c₀
  · subst hbc
    obtain rfl := hch.chain.unique hi.chain.chain
    rcases hi.live a j hl with ⟨rfl, rfl⟩ | ⟨hold, hsame⟩
    · exact .inl ⟨rfl, rfl, rfl⟩
    · exact .inr ⟨l, hi.old, hold, hsame⟩
  · obtain ⟨hch', hdata, -, -⟩ := hi.toChanged.keeps ht ho hbc hlo
    obtain rfl := hch.chain.unique hch'.chain
    refine .inr ⟨lb, hlo, hl.congr fun a ha => (hdata a ha).symm, ?_⟩
    exact slot_of_data (hdata a hl.mem) j

/-- Every directory was there before, or is the new one and empty. -/
theorem isDir_back (hi : Inserted g d d' c₀ l l' c k x lx) (ht : Tidy g d) {b : Nat}
    (hb : IsDir g d' b) : IsDir g d b ∨ (b = x ∧ IsEnd (slot g d' x 0)) := by
  induction hb with
  | root => exact .inl .root
  | @sub b a j lb _ hch hl hdir ih =>
      rcases ih with hold | ⟨rfl, hend⟩
      · rcases hi.live_back ht hold hch hl with ⟨rfl, rfl, rfl⟩ | ⟨lo, hlo, hlive, hsame⟩
        · obtain rfl := hch.chain.unique hi.chain.chain
          rw [hi.cluster]
          exact .inr ⟨rfl, hi.empty hl hdir⟩
        · rw [hsame] at hdir ⊢
          exact .inl (.sub hold hlo hlive hdir)
      · exact absurd hl (hi.not_live_new hend hch)

theorem liveAt_back (hi : Inserted g d d' c₀ l l' c k x lx) (ht : Tidy g d) {a j : Nat}
    (hl : LiveAt g d' a j) :
    (a = c ∧ j = k) ∨ (LiveAt g d a j ∧ slot g d' a j = slot g d a j) := by
  obtain ⟨b, lb, hb, hch, hl⟩ := hl
  rcases hi.isDir_back ht hb with hold | ⟨rfl, hend⟩
  · rcases hi.live_back ht hold hch hl with ⟨-, rfl, rfl⟩ | ⟨lo, hlo, hlive, hsame⟩
    · exact .inl ⟨rfl, rfl⟩
    · exact .inr ⟨⟨b, lo, hold, hlo, hlive⟩, hsame⟩
  · exact absurd hl (hi.not_live_new hend hch)

/-- The owners are those from before and the new entry. -/
theorem owns_back (hi : Inserted g d d' c₀ l l' c k x lx) (ht : Tidy g d) {o : Owner} {b : Nat}
    (ho : Owns g d' o b) : (o = .entry c k ∧ b = x) ∨ Owns g d o b := by
  cases o with
  | root => exact .inr ho
  | entry a j =>
      obtain ⟨hl, rfl⟩ := ho
      rcases hi.liveAt_back ht hl with ⟨rfl, rfl⟩ | ⟨hold, hsame⟩
      · exact .inl ⟨rfl, hi.cluster⟩
      · rw [hsame]
        exact .inr ⟨hold, rfl⟩

/-- The chain of an owner from before, and that it is apart from the new one. -/
theorem chain_of_owns (hi : Inserted g d d' c₀ l l' c k x lx) (ht : Tidy g d) {o : Owner}
    {b : Nat} (ho : Owns g d o b) : ∃ lb, IsChain g d' b lb ∧ List.Disjoint lb lx := by
  by_cases hbc : b = c₀
  · subst hbc
    exact ⟨l', hi.chain, hi.apart⟩
  · obtain ⟨lo, hlo⟩ := ht.ends ho
    obtain ⟨hch, -, -, hdis⟩ := hi.toChanged.keeps ht ho hbc hlo
    exact ⟨lo, hch, hdis⟩

/-- Two owners from before still have no cluster in common. -/
theorem apart_of_owns (hi : Inserted g d d' c₀ l l' c k x lx) (ht : Tidy g d) {o o' : Owner}
    {b b' : Nat} {lb lb' : List Nat} (ho : Owns g d o b) (ho' : Owns g d o' b') (hne : o ≠ o')
    (hch : IsChain g d' b lb) (hch' : IsChain g d' b' lb') : List.Disjoint lb lb' := by
  obtain ⟨lo, hlo⟩ := ht.ends ho
  obtain ⟨lo', hlo'⟩ := ht.ends ho'
  by_cases hb : b = c₀
  · by_cases hb' : b' = c₀
    · -- one directory cannot have two owners
      subst hb
      subst hb'
      exact absurd (ht.owner_unique ho ho' hlo hlo' hlo.chain.head_mem hlo'.chain.head_mem) hne
    · obtain ⟨hkept, -, hdis, -⟩ := hi.toChanged.keeps ht ho' hb' hlo'
      subst hb
      obtain rfl := hch.chain.unique hi.chain.chain
      obtain rfl := hch'.chain.unique hkept.chain
      exact hdis.symm
  · obtain ⟨hkept, -, hdis, -⟩ := hi.toChanged.keeps ht ho hb hlo
    obtain rfl := hch.chain.unique hkept.chain
    by_cases hb' : b' = c₀
    · subst hb'
      obtain rfl := hch'.chain.unique hi.chain.chain
      exact hdis
    · obtain ⟨hkept', -, -, -⟩ := hi.toChanged.keeps ht ho' hb' hlo'
      obtain rfl := hch'.chain.unique hkept'.chain
      exact ht.apart ho ho' hne hlo hlo'

/-- A tidy volume stays tidy. -/
theorem tidy (hi : Inserted g d d' c₀ l l' c k x lx) (ht : Tidy g d) : Tidy g d' where
  ends := by
    intro o b ho
    rcases hi.owns_back ht ho with ⟨-, rfl⟩ | hold
    · exact ⟨lx, hi.new⟩
    · obtain ⟨lb, hlb, -⟩ := hi.chain_of_owns ht hold
      exact ⟨lb, hlb⟩
  apart := by
    -- the new chain is apart from all old ones
    have hnew : ∀ {o b lb lb'}, Owns g d o b → IsChain g d' b lb → IsChain g d' x lb' →
        List.Disjoint lb lb' := by
      intro o b lb lb' hold hlb hlb'
      obtain ⟨lb₁, hlb₁, hdis⟩ := hi.chain_of_owns ht hold
      obtain rfl := hlb.chain.unique hlb₁.chain
      obtain rfl := hlb'.chain.unique hi.new.chain
      exact hdis
    intro o o' b b' lb lb' ho ho' hne hch hch'
    rcases hi.owns_back ht ho with ⟨rfl, rfl⟩ | hold
    · rcases hi.owns_back ht ho' with ⟨rfl, rfl⟩ | hold'
      · exact absurd rfl hne
      · exact (hnew hold' hch' hch).symm
    · rcases hi.owns_back ht ho' with ⟨rfl, rfl⟩ | hold'
      · exact hnew hold hch hch'
      · exact hi.apart_of_owns ht hold hold' hne hch hch'

/-- A new name leaves the names of every directory distinct. -/
theorem uniqueNames (hi : Inserted g d d' c₀ l l' c k x lx) (ht : Tidy g d)
    (hu : UniqueNames g d)
    (hname : ∀ b j, LiveIn g d l b j → (slot g d b j).fileName ≠ (slot g d' c k).fileName) :
    UniqueNames g d' := by
  intro b lb hb hch a j a' j' hl hl' hsame
  rcases hi.isDir_back ht hb with hold | ⟨rfl, hend⟩
  swap
  · exact absurd hl (hi.not_live_new hend hch)
  -- either entry may be the new one
  rcases hi.live_back ht hold hch hl with ⟨rfl, rfl, rfl⟩ | ⟨lo, hlo, hlive, hslot⟩
  · rcases hi.live_back ht hold hch hl' with ⟨-, rfl, rfl⟩ | ⟨lo, hlo, hlive, hslot⟩
    · rfl
    · obtain rfl := hlo.chain.unique hi.old.chain
      rw [hslot] at hsame
      exact absurd hsame.symm (hname a' j' hlive)
  · rcases hi.live_back ht hold hch hl' with ⟨rfl, rfl, rfl⟩ | ⟨lo', hlo', hlive', hslot'⟩
    · obtain rfl := hlo.chain.unique hi.old.chain
      rw [hslot] at hsame
      exact absurd hsame (hname a j hlive)
    · obtain rfl := hlo.chain.unique hlo'.chain
      rw [hslot, hslot'] at hsame
      exact hu b lo hold hlo a j a' j' hlive hlive' hsame

end Inserted

end PotatoOS
