import MangaManager.Lib.Components
import MangaManager.Series.Clusters

/-!
# The review queue

`pending_match_proposal_index` and `connected_proposal_components` of
`manga_manager/web/api.py`: the pending decisions are grouped by the clusters of equivalent
series that they join, and a batch of proposals is split into parts that share no series.

`review_queue_partitions`: each pending decision between two clusters is in one proposal,
with those that join the same clusters, and the parts of a batch are the connected
components of its proposals.
-/

namespace MangaManager

open Lib Relation

/-- A row of the query, with the series of the two identities. -/
structure PendingRow where
  decisionId : Nat
  confidence : Rat
  leftSeriesId : Nat
  rightSeriesId : Nat
  deriving DecidableEq

structure MatchProposal where
  id : Nat
  confidence : Rat
  decisionIds : List Nat
  seriesIds : List Nat
  deriving DecidableEq

/-- A row with the clusters that it joins. -/
structure ClusteredRow extends PendingRow where
  leftCluster : List Nat
  rightCluster : List Nat
  leftRoot : Nat
  rightRoot : Nat

namespace ClusteredRow

variable (r : ClusteredRow) (p : MatchProposal)

def key : Nat × Nat := (min r.leftRoot r.rightRoot, max r.leftRoot r.rightRoot)

def memberSeriesIds : List Nat := distinctSorted (r.leftCluster ++ r.rightCluster)

/-- The first row of a proposal. -/
def proposal : MatchProposal := ⟨r.decisionId, r.confidence, [r.decisionId], r.memberSeriesIds⟩

/-- `(confidence, -decision_id) > (proposal["confidence"], -proposal["id"])`. -/
def isGreater : Bool :=
  decide (p.confidence < r.confidence ∨ (p.confidence = r.confidence ∧ r.decisionId < p.id))

/-- A further row of a proposal. -/
def addTo : MatchProposal where
  id := if r.isGreater p then r.decisionId else p.id
  confidence := if r.isGreater p then r.confidence else p.confidence
  decisionIds := p.decisionIds ++ [r.decisionId]
  seriesIds := distinctSorted (p.seriesIds ++ r.memberSeriesIds)

end ClusteredRow

/-- `proposal["decision_ids"].sort()`. -/
def MatchProposal.sorted (p : MatchProposal) : MatchProposal :=
  { p with decisionIds := p.decisionIds.insertionSort (· ≤ ·) }

/-- The greatest confidence first. -/
def MatchProposal.isBefore (p q : MatchProposal) : Prop :=
  q.confidence < p.confidence ∨ (q.confidence = p.confidence ∧ p.id ≤ q.id)

instance (p q : MatchProposal) : Decidable (p.isBefore q) := inferInstanceAs (Decidable (_ ∨ _))

/-- The rows of pending decisions, all or those between two series. -/
def Gallery.pendingRows (s : Gallery) (seriesPair : Option (Nat × Nat)) : List PendingRow :=
  ((s.decisions.filter (·.decision = .pending)).filterMap fun d => do
    let left ← Table.get CatalogSourceSeries.id s.identities d.leftSourceSeriesId
    let right ← Table.get CatalogSourceSeries.id s.identities d.rightSourceSeriesId
    pure ⟨d.id, d.confidence, left.seriesId, right.seriesId⟩).filter fun r =>
      seriesPair.all fun pair => (r.leftSeriesId == pair.1 && r.rightSeriesId == pair.2) ||
        (r.leftSeriesId == pair.2 && r.rightSeriesId == pair.1)

/-- `equivalent_clusters.get(series_id, (series_id,))`. -/
def clusterOf (clusters : Dict Nat (List Nat)) (seriesId : Nat) : List Nat :=
  (clusters.lookup seriesId).getD [seriesId]

def PendingRow.clustered (clusters : Dict Nat (List Nat)) (r : PendingRow) :
    Option ClusteredRow := do
  let leftCluster := clusterOf clusters r.leftSeriesId
  let rightCluster := clusterOf clusters r.rightSeriesId
  let leftRoot ← leftCluster.head?
  let rightRoot ← rightCluster.head?
  pure ⟨r, leftCluster, rightCluster, leftRoot, rightRoot⟩

def allSeriesIds (rows : List PendingRow) : List Nat :=
  (rows.flatMap fun r => [r.leftSeriesId, r.rightSeriesId]).dedup

/-- The proposals of the rows that join two clusters. -/
def groupRows (rows : List ClusteredRow) : Dict (Nat × Nat) MatchProposal :=
  Dict.fill ClusteredRow.key ClusteredRow.addTo ClusteredRow.proposal
    (rows.filter fun r => r.leftRoot ≠ r.rightRoot)

/-- `pending_match_proposal_index`; none, when a lookup raises. -/
def Gallery.pendingMatchProposalIndex (t : CatalogText) (s : Gallery)
    (seriesPair : Option (Nat × Nat)) : Option (List MatchProposal) := do
  let rows := s.pendingRows seriesPair
  let clusters ← s.equivalentSeriesClusters t (allSeriesIds rows)
  let clustered ← rows.mapM (PendingRow.clustered clusters)
  let proposals := (groupRows clustered).entries.map (·.2.sorted)
  pure (proposals.insertionSort MatchProposal.isBefore)

/-- `connected_proposal_components`. -/
def connectedProposalComponents (proposals : List MatchProposal) :
    List (Component MatchProposal Nat) :=
  (components MatchProposal.seriesIds proposals).map fun c =>
    { c with keys := distinctSorted c.keys }

theorem distinctSorted_pairwise (l : List Nat) : (distinctSorted l).Pairwise (· < ·) := by
  have hle := List.pairwise_insertionSort (· ≤ ·) l.dedup
  have hnd : (distinctSorted l).Nodup :=
    (List.perm_insertionSort _ _).nodup_iff.mpr (List.nodup_dedup _)
  exact (hle.and hnd).imp fun h => Nat.lt_of_le_of_ne h.1 h.2

theorem mem_distinctSorted {l : List Nat} {x : Nat} : x ∈ distinctSorted l ↔ x ∈ l :=
  (List.mem_insertionSort _).trans List.mem_dedup

/-! ## One proposal -/

/-- The proposal of the rows of a key. -/
structure Gathers (rows : List ClusteredRow) (p : MatchProposal) : Prop where
  decisions : p.decisionIds.Perm (rows.map (·.decisionId))
  representative : ∃ r ∈ rows, r.decisionId = p.id ∧ r.confidence = p.confidence
  greatest : ∀ r ∈ rows, r.confidence < p.confidence ∨
    (r.confidence = p.confidence ∧ p.id ≤ r.decisionId)
  sorted : p.seriesIds.Pairwise (· < ·)
  series : ∀ x, x ∈ p.seriesIds ↔ ∃ r ∈ rows, x ∈ r.leftCluster ∨ x ∈ r.rightCluster

section
variable {rows : List ClusteredRow} {p : MatchProposal}

theorem ClusteredRow.proposal_gathers (r : ClusteredRow) : Gathers [r] r.proposal where
  decisions := .refl _
  representative := ⟨r, List.mem_singleton_self r, rfl, rfl⟩
  greatest r' hr' := .inr (by rw [List.mem_singleton.mp hr']; exact ⟨rfl, Nat.le_refl _⟩)
  sorted := distinctSorted_pairwise _
  series x := by
    show x ∈ r.memberSeriesIds ↔ _
    simp [ClusteredRow.memberSeriesIds, mem_distinctSorted]

theorem Gathers.addTo (h : Gathers rows p) (r : ClusteredRow) :
    Gathers (rows ++ [r]) (r.addTo p) where
  decisions := by
    show (p.decisionIds ++ [r.decisionId]).Perm _
    rw [List.map_append, List.map_singleton]
    exact h.decisions.append_right _
  representative := by
    cases hg : r.isGreater p with
    | true => exact ⟨r, by simp, by simp [ClusteredRow.addTo, hg], by simp [ClusteredRow.addTo, hg]⟩
    | false =>
      obtain ⟨r', hr', hid, hc⟩ := h.representative
      refine ⟨r', List.mem_append_left _ hr', ?_, ?_⟩
      · simpa [ClusteredRow.addTo, hg] using hid
      · simpa [ClusteredRow.addTo, hg] using hc
  greatest r' hr' := by
    cases hg : r.isGreater p with
    | true =>
      have hg' := of_decide_eq_true hg
      have hid : (r.addTo p).id = r.decisionId := by simp [ClusteredRow.addTo, hg]
      have hc : (r.addTo p).confidence = r.confidence := by simp [ClusteredRow.addTo, hg]
      rw [hid, hc]
      rcases List.mem_append.mp hr' with hr' | hr'
      · rcases h.greatest r' hr' with hlt | ⟨heq, hle⟩ <;> rcases hg' with hlt' | ⟨heq', hlt'⟩
        · exact .inl (hlt.trans hlt')
        · exact .inl (heq' ▸ hlt)
        · exact .inl (heq ▸ hlt')
        · exact .inr ⟨heq.trans heq', by omega⟩
      · rw [List.mem_singleton.mp hr']
        exact .inr ⟨rfl, Nat.le_refl _⟩
    | false =>
      have hg' := of_decide_eq_false hg
      have hid : (r.addTo p).id = p.id := by simp [ClusteredRow.addTo, hg]
      have hc : (r.addTo p).confidence = p.confidence := by simp [ClusteredRow.addTo, hg]
      rw [hid, hc]
      rcases List.mem_append.mp hr' with hr' | hr'
      · exact h.greatest r' hr'
      · rw [List.mem_singleton.mp hr']
        push Not at hg'
        rcases lt_or_eq_of_le hg'.1 with hlt | heq
        · exact .inl hlt
        · exact .inr ⟨heq, hg'.2 heq.symm⟩
  sorted := distinctSorted_pairwise _
  series x := by
    show x ∈ distinctSorted (p.seriesIds ++ r.memberSeriesIds) ↔ _
    simp only [mem_distinctSorted, List.mem_append, h.series, ClusteredRow.memberSeriesIds,
      List.mem_singleton, or_and_right, exists_or, exists_eq_left]

theorem Gathers.sort (h : Gathers rows p) : Gathers rows p.sorted :=
  { h with decisions := (List.perm_insertionSort _ _).trans h.decisions }

/-- What is under a key of the proposals. -/
theorem groupRows_lookup (rows : List ClusteredRow) (k : Nat × Nat) :
    ((rows.filter fun r => r.leftRoot ≠ r.rightRoot).filter (·.key = k) = [] ∧
      (groupRows rows).lookup k = none) ∨
    ∃ p, (groupRows rows).lookup k = some p ∧
      Gathers ((rows.filter fun r => r.leftRoot ≠ r.rightRoot).filter (·.key = k)) p :=
  Dict.fill_spec ClusteredRow.proposal_gathers (fun _ r _ h => h.addTo r) _ k

theorem entry_gathers {e : (_ : Nat × Nat) × MatchProposal} (he : e ∈ (groupRows rows).entries) :
    Gathers ((rows.filter fun r => r.leftRoot ≠ r.rightRoot).filter (·.key = e.1)) e.2.sorted := by
  have hl := AList.mem_lookup_iff.mpr he
  rcases groupRows_lookup rows e.1 with ⟨-, hno⟩ | ⟨q, hq, hg⟩
  · rw [hno] at hl
    cases hl
  · rw [hq] at hl
    cases hl
    exact hg.sort

/-- The proposals are one for each key. -/
theorem mem_proposals (h : p ∈ (groupRows rows).entries.map (·.2.sorted)) :
    ∃ k, Gathers ((rows.filter fun r => r.leftRoot ≠ r.rightRoot).filter (·.key = k)) p := by
  obtain ⟨e, he, rfl⟩ := List.mem_map.mp h
  exact ⟨e.1, entry_gathers he⟩

/-- A row between two clusters has a proposal. -/
theorem exists_proposal {r : ClusteredRow} (hr : r ∈ rows) (hne : r.leftRoot ≠ r.rightRoot) :
    ∃ p ∈ (groupRows rows).entries.map (·.2.sorted),
      Gathers ((rows.filter fun r => r.leftRoot ≠ r.rightRoot).filter (·.key = r.key)) p := by
  rcases groupRows_lookup rows r.key with ⟨hnil, -⟩ | ⟨q, hq, hg⟩
  · refine absurd hnil (List.ne_nil_of_mem (a := r) (List.mem_filter.mpr ⟨?_, by simp⟩))
    exact List.mem_filter.mpr ⟨hr, by simpa using hne⟩
  · exact ⟨q.sorted, List.mem_map.mpr ⟨_, AList.mem_lookup_iff.mp hq, rfl⟩, hg.sort⟩

theorem Gathers.mem_decisions {k : Nat × Nat} {id : Nat}
    (h : Gathers ((rows.filter fun r => r.leftRoot ≠ r.rightRoot).filter (·.key = k)) p) :
    id ∈ p.decisionIds ↔
      ∃ r ∈ rows, r.leftRoot ≠ r.rightRoot ∧ r.key = k ∧ r.decisionId = id := by
  rw [h.decisions.mem_iff, List.mem_map]
  simp only [List.mem_filter, decide_eq_true_eq, and_assoc]

/-- No decision is twice in the proposals. -/
theorem proposals_nodup (hnd : (rows.map (·.decisionId)).Nodup) :
    (((groupRows rows).entries.map (·.2.sorted)).flatMap (·.decisionIds)).Nodup := by
  rw [List.nodup_flatMap]
  constructor
  · intro p hp
    obtain ⟨k, hg⟩ := mem_proposals hp
    rw [hg.decisions.nodup_iff]
    exact hnd.sublist ((List.filter_sublist.trans List.filter_sublist).map _)
  · rw [List.pairwise_map]
    refine List.Pairwise.imp_of_mem (fun {e e'} he he' hne => ?_)
      (List.nodupKeys_iff_pairwise.mp (groupRows rows).nodupKeys)
    intro id hid hid'
    obtain ⟨r, hr, -, hk, hrid⟩ := (entry_gathers he).mem_decisions.mp hid
    obtain ⟨r', hr', -, hk', hrid'⟩ := (entry_gathers he').mem_decisions.mp hid'
    obtain rfl := List.inj_on_of_nodup_map hnd hr hr' (hrid.trans hrid'.symm)
    exact hne (hk.symm.trans hk')

end

/-! ## The rows -/

namespace Gallery

variable {t : CatalogText} {s : Gallery} {seriesPair : Option (Nat × Nat)} {a b a' b' : Nat}
  {d d' : CatalogMatchDecision} {r : PendingRow}

/-- The decision is pending, between identities of the two series, and asked for. -/
structure Asked (s : Gallery) (seriesPair : Option (Nat × Nat)) (d : CatalogMatchDecision)
    (a b : Nat) : Prop where
  mem : d ∈ s.decisions
  pending : d.decision = .pending
  left : ∃ i ∈ s.identities, i.id = d.leftSourceSeriesId ∧ i.seriesId = a
  right : ∃ i ∈ s.identities, i.id = d.rightSourceSeriesId ∧ i.seriesId = b
  pair : ∀ pair, seriesPair = some pair → (a = pair.1 ∧ b = pair.2) ∨ (a = pair.2 ∧ b = pair.1)

/-- The series of the asked decisions. -/
def reviewedSeries (s : Gallery) (seriesPair : Option (Nat × Nat)) : List Nat :=
  allSeriesIds (s.pendingRows seriesPair)

theorem mem_pendingRows (hi : Table.Keyed CatalogSourceSeries.id s.identities) :
    r ∈ s.pendingRows seriesPair ↔
      ∃ d a b, s.Asked seriesPair d a b ∧ r = ⟨d.id, d.confidence, a, b⟩ := by
  have hpair : ∀ a b : Nat, (seriesPair.all fun pair => (a == pair.1 && b == pair.2) ||
      (a == pair.2 && b == pair.1)) = true ↔
        ∀ pair, seriesPair = some pair → (a = pair.1 ∧ b = pair.2) ∨ (a = pair.2 ∧ b = pair.1) := by
    intro a b
    cases seriesPair <;> simp
  unfold pendingRows
  rw [List.mem_filter, List.mem_filterMap]
  constructor
  · rintro ⟨⟨d, hd, hr⟩, hp⟩
    obtain ⟨hmem, hpending⟩ := List.mem_filter.mp hd
    obtain ⟨i, hi', hr⟩ := Option.bind_eq_some_iff.mp hr
    obtain ⟨j, hj', hr⟩ := Option.bind_eq_some_iff.mp hr
    cases hr
    exact ⟨d, _, _, ⟨hmem, by simpa using hpending, ⟨i, Table.get_mem hi', Table.get_key hi', rfl⟩,
      ⟨j, Table.get_mem hj', Table.get_key hj', rfl⟩, (hpair _ _).mp hp⟩, rfl⟩
  · rintro ⟨d, a, b, ⟨hmem, hpending, ⟨i, hi', hid, rfl⟩, ⟨j, hj', hjd, rfl⟩, hp⟩, rfl⟩
    refine ⟨⟨d, List.mem_filter.mpr ⟨hmem, by simpa using hpending⟩, ?_⟩, (hpair _ _).mpr hp⟩
    rw [← hid, ← hjd, hi.get_eq hi', hi.get_eq hj']
    rfl

theorem pendingRows_nodup (hd : Table.Keyed CatalogMatchDecision.id s.decisions) :
    ((s.pendingRows seriesPair).map (·.decisionId)).Nodup := by
  rw [List.Nodup, List.pairwise_map]
  refine List.Pairwise.filter _ (List.Pairwise.filterMap _ (fun d d' hne r hr r' hr' => ?_)
    (List.Pairwise.filter _ (List.pairwise_map.mp hd)))
  have hid : ∀ {d : CatalogMatchDecision} {r : PendingRow}, (do
      let left ← Table.get CatalogSourceSeries.id s.identities d.leftSourceSeriesId
      let right ← Table.get CatalogSourceSeries.id s.identities d.rightSourceSeriesId
      pure (⟨d.id, d.confidence, left.seriesId, right.seriesId⟩ : PendingRow)) = some r →
      r.decisionId = d.id := by
    intro d r hr
    obtain ⟨i, -, hr⟩ := Option.bind_eq_some_iff.mp hr
    obtain ⟨j, -, hr⟩ := Option.bind_eq_some_iff.mp hr
    cases hr
    rfl
  rw [hid hr, hid hr']
  exact hne

theorem Asked.mem_reviewed (hi : Table.Keyed CatalogSourceSeries.id s.identities)
    (h : s.Asked seriesPair d a b) :
    a ∈ s.reviewedSeries seriesPair ∧ b ∈ s.reviewedSeries seriesPair := by
  have hr := (mem_pendingRows hi).mpr ⟨d, a, b, h, rfl⟩
  exact ⟨List.mem_dedup.mpr (List.mem_flatMap.mpr ⟨_, hr, by simp⟩),
    List.mem_dedup.mpr (List.mem_flatMap.mpr ⟨_, hr, by simp⟩)⟩

/-- A decision joins one pair of series. -/
theorem Asked.unique (hi : Table.Keyed CatalogSourceSeries.id s.identities)
    (hd : Table.Keyed CatalogMatchDecision.id s.decisions) (h : s.Asked seriesPair d a b)
    (h' : s.Asked seriesPair d' a' b') (he : d.id = d'.id) : d = d' ∧ a = a' ∧ b = b' := by
  obtain rfl := hd.eq h.mem h'.mem he
  obtain ⟨i, hi₁, hi₂, rfl⟩ := h.left
  obtain ⟨j, hj₁, hj₂, rfl⟩ := h.right
  obtain ⟨i', hi₁', hi₂', rfl⟩ := h'.left
  obtain ⟨j', hj₁', hj₂', rfl⟩ := h'.right
  obtain rfl := hi.eq hi₁ hi₁' (hi₂.trans hi₂'.symm)
  obtain rfl := hi.eq hj₁ hj₁' (hj₂.trans hj₂'.symm)
  exact ⟨rfl, rfl, rfl⟩

/-! ## The clusters of the rows -/

/-- The dictionary holds the clusters of the series. -/
structure Clusters (t : CatalogText) (s : Gallery) (seriesIds : List Nat)
    (clusters : Dict Nat (List Nat)) : Prop where
  cluster : ∀ a ∈ seriesIds, s.IsCluster t seriesIds a (clusterOf clusters a)

section
variable {seriesIds : List Nat} {clusters : Dict Nat (List Nat)}

/-- The first series of a cluster. -/
def rootOf (clusters : Dict Nat (List Nat)) (a : Nat) : Nat := (clusterOf clusters a).headD a

theorem Clusters.root_mem (h : Clusters t s seriesIds clusters) (ha : a ∈ seriesIds) :
    (clusterOf clusters a).head? = some (rootOf clusters a) ∧
      rootOf clusters a ∈ clusterOf clusters a := by
  have hmem : a ∈ clusterOf clusters a := ((h.cluster a ha).2 a).mpr ⟨ha, .refl a⟩
  obtain ⟨x, l, hl⟩ := List.exists_cons_of_ne_nil (List.ne_nil_of_mem hmem)
  rw [rootOf, hl]
  exact ⟨rfl, List.mem_cons_self⟩

/-- Two series have one root when they are in one cluster. -/
theorem Clusters.root_eq (h : Clusters t s seriesIds clusters) (ha : a ∈ seriesIds)
    (hb : b ∈ seriesIds) :
    rootOf clusters a = rootOf clusters b ↔ s.SameCluster t seriesIds a b := by
  have hra := (((h.cluster a ha).2 _).mp (h.root_mem ha).2).2
  have hrb := (((h.cluster b hb).2 _).mp (h.root_mem hb).2).2
  refine ⟨fun he => hra.trans (he ▸ hrb.symm), fun hab => ?_⟩
  have hl := (h.cluster a ha).eq (h.cluster b hb) hab
  have := (h.root_mem ha).1
  rw [hl, (h.root_mem hb).1] at this
  exact (Option.some.inj this).symm

/-- The row with its clusters. -/
def clusteredRow (clusters : Dict Nat (List Nat)) (r : PendingRow) : ClusteredRow :=
  ⟨r, clusterOf clusters r.leftSeriesId, clusterOf clusters r.rightSeriesId,
    rootOf clusters r.leftSeriesId, rootOf clusters r.rightSeriesId⟩

theorem Clusters.clustered (h : Clusters t s seriesIds clusters) (ha : r.leftSeriesId ∈ seriesIds)
    (hb : r.rightSeriesId ∈ seriesIds) :
    r.clustered clusters = some (clusteredRow clusters r) := by
  have hl := (h.root_mem ha).1
  have hr := (h.root_mem hb).1
  simp only [PendingRow.clustered, hl, hr, Option.bind_eq_bind, Option.bind_some]
  rfl

end

/-! ## The index -/

/-- The rows as they are grouped, and the proposals in some order. -/
theorem pendingMatchProposalIndex_eq (t : CatalogText) (seriesPair : Option (Nat × Nat))
    (hi : Table.Keyed CatalogSourceSeries.id s.identities) :
    ∃ clusters, s.equivalentSeriesClusters t (s.reviewedSeries seriesPair) = some clusters ∧
      Clusters t s (s.reviewedSeries seriesPair) clusters ∧
      ∃ proposals, s.pendingMatchProposalIndex t seriesPair = some proposals ∧
        proposals.Perm ((groupRows ((s.pendingRows seriesPair).map
          (clusteredRow clusters))).entries.map (·.2.sorted)) := by
  obtain ⟨clusters, hc, hin, -⟩ := equivalent_series_clusters_spec (t := t) hi
    (show (s.reviewedSeries seriesPair).Nodup from List.nodup_dedup _)
  have hclusters : Clusters t s (s.reviewedSeries seriesPair) clusters := by
    refine ⟨fun a ha => ?_⟩
    obtain ⟨l, hl, hcluster⟩ := hin a ha
    rw [clusterOf, hl]
    exact hcluster
  refine ⟨clusters, hc, hclusters, _, ?_, List.perm_insertionSort MatchProposal.isBefore _⟩
  have hrows : (s.pendingRows seriesPair).mapM (PendingRow.clustered clusters) =
      some ((s.pendingRows seriesPair).map (clusteredRow clusters)) := by
    refine mapM_eq_some fun r hr => ?_
    obtain ⟨d, a, b, h, rfl⟩ := (mem_pendingRows hi).mp hr
    exact hclusters.clustered (h.mem_reviewed hi).1 (h.mem_reviewed hi).2
  unfold pendingMatchProposalIndex
  dsimp only
  rw [show allSeriesIds (s.pendingRows seriesPair) = s.reviewedSeries seriesPair from rfl, hc,
    Option.bind_eq_bind, Option.bind_some, hrows]
  rfl

/-- What the index says about the pending decisions that it is asked for. -/
structure ReviewIndex (s : Gallery) (t : CatalogText) (seriesPair : Option (Nat × Nat))
    (proposals : List MatchProposal) : Prop where
  /-- A decision between two clusters is in a proposal, and no other decision is. -/
  proposed : ∀ d a b, s.Asked seriesPair d a b →
    ((∃ p ∈ proposals, d.id ∈ p.decisionIds) ↔ ¬ s.SameCluster t (s.reviewedSeries seriesPair) a b)
  pending : ∀ p ∈ proposals, ∀ id ∈ p.decisionIds, ∃ d a b, s.Asked seriesPair d a b ∧ d.id = id
  once : (proposals.flatMap (·.decisionIds)).Nodup
  /-- The decisions of a proposal join the same two clusters. -/
  together : ∀ p ∈ proposals, ∀ d a b d' a' b', s.Asked seriesPair d a b →
    s.Asked seriesPair d' a' b' → d.id ∈ p.decisionIds → (d'.id ∈ p.decisionIds ↔
      (s.SameCluster t (s.reviewedSeries seriesPair) a a' ∧
        s.SameCluster t (s.reviewedSeries seriesPair) b b') ∨
      (s.SameCluster t (s.reviewedSeries seriesPair) a b' ∧
        s.SameCluster t (s.reviewedSeries seriesPair) b a'))
  representative : ∀ p ∈ proposals, ∃ d a b, s.Asked seriesPair d a b ∧ d.id ∈ p.decisionIds ∧
    d.id = p.id ∧ d.confidence = p.confidence
  greatest : ∀ p ∈ proposals, ∀ d a b, s.Asked seriesPair d a b → d.id ∈ p.decisionIds →
    d.confidence < p.confidence ∨ (d.confidence = p.confidence ∧ p.id ≤ d.id)
  /-- The series of a proposal are those of the two clusters, in order. -/
  series : ∀ p ∈ proposals, p.seriesIds.Pairwise (· < ·) ∧
    ∀ d a b, s.Asked seriesPair d a b → d.id ∈ p.decisionIds → ∀ x, x ∈ p.seriesIds ↔
      x ∈ s.reviewedSeries seriesPair ∧
        (s.SameCluster t (s.reviewedSeries seriesPair) a x ∨
          s.SameCluster t (s.reviewedSeries seriesPair) b x)

/-- A row of the grouping is that of a decision. -/
theorem mem_clusteredRows (hi : Table.Keyed CatalogSourceSeries.id s.identities)
    {clusters : Dict Nat (List Nat)} {r : ClusteredRow} :
    r ∈ (s.pendingRows seriesPair).map (clusteredRow clusters) ↔
      ∃ d a b, s.Asked seriesPair d a b ∧
        r = clusteredRow clusters ⟨d.id, d.confidence, a, b⟩ := by
  rw [List.mem_map]
  constructor
  · rintro ⟨r, hr, rfl⟩
    obtain ⟨d, a, b, h, rfl⟩ := (mem_pendingRows hi).mp hr
    exact ⟨d, a, b, h, rfl⟩
  · rintro ⟨d, a, b, h, rfl⟩
    exact ⟨_, (mem_pendingRows hi).mpr ⟨d, a, b, h, rfl⟩, rfl⟩

/-- The decisions of a proposal are those of its key. -/
theorem Asked.mem_proposal (hi : Table.Keyed CatalogSourceSeries.id s.identities)
    (hd : Table.Keyed CatalogMatchDecision.id s.decisions) (h : s.Asked seriesPair d a b)
    {clusters : Dict Nat (List Nat)} {k : Nat × Nat} {p : MatchProposal}
    (hg : Gathers ((((s.pendingRows seriesPair).map (clusteredRow clusters)).filter
      fun r => r.leftRoot ≠ r.rightRoot).filter (·.key = k)) p) :
    d.id ∈ p.decisionIds ↔ rootOf clusters a ≠ rootOf clusters b ∧
      (min (rootOf clusters a) (rootOf clusters b),
        max (rootOf clusters a) (rootOf clusters b)) = k := by
  rw [hg.mem_decisions]
  constructor
  · rintro ⟨r, hr, hne, hk, hid⟩
    obtain ⟨d', a', b', h', rfl⟩ := (mem_clusteredRows hi).mp hr
    obtain ⟨rfl, rfl, rfl⟩ := h'.unique hi hd h hid
    exact ⟨hne, hk⟩
  · rintro ⟨hne, hk⟩
    exact ⟨_, (mem_clusteredRows hi).mpr ⟨d, a, b, h, rfl⟩, hne, hk, rfl⟩

theorem pendingMatchProposalIndex_spec (hi : Table.Keyed CatalogSourceSeries.id s.identities)
    (hd : Table.Keyed CatalogMatchDecision.id s.decisions) :
    ∃ proposals, s.pendingMatchProposalIndex t seriesPair = some proposals ∧
      s.ReviewIndex t seriesPair proposals := by
  obtain ⟨clusters, -, hc, proposals, hp, hperm⟩ :=
    pendingMatchProposalIndex_eq t seriesPair hi
  set ids := s.reviewedSeries seriesPair
  have hmem : ∀ {p}, p ∈ proposals → ∃ k, Gathers ((((s.pendingRows seriesPair).map
      (clusteredRow clusters)).filter fun r => r.leftRoot ≠ r.rightRoot).filter (·.key = k)) p :=
    fun hp => mem_proposals (hperm.mem_iff.mp hp)
  have hids : ∀ {d a b}, s.Asked seriesPair d a b → a ∈ ids ∧ b ∈ ids := fun h => h.mem_reviewed hi
  refine ⟨proposals, hp, ?_, ?_, ?_, ?_, ?_, ?_, ?_⟩
  · intro d a b h
    rw [← hc.root_eq (hids h).1 (hids h).2]
    constructor
    · rintro ⟨p, hp, hdp⟩
      obtain ⟨k, hg⟩ := hmem hp
      exact ((h.mem_proposal hi hd hg).mp hdp).1
    · intro hne
      obtain ⟨p, hp, hg⟩ := exists_proposal ((mem_clusteredRows hi).mpr ⟨d, a, b, h, rfl⟩) hne
      exact ⟨p, hperm.mem_iff.mpr hp, (h.mem_proposal hi hd hg).mpr ⟨hne, rfl⟩⟩
  · intro p hp id hid
    obtain ⟨k, hg⟩ := hmem hp
    obtain ⟨r, hr, -, -, rfl⟩ := hg.mem_decisions.mp hid
    obtain ⟨d, a, b, h, rfl⟩ := (mem_clusteredRows hi).mp hr
    exact ⟨d, a, b, h, rfl⟩
  · refine (hperm.flatMap_right _).nodup_iff.mpr (proposals_nodup ?_)
    rw [List.map_map]
    exact pendingRows_nodup hd
  · intro p hp d a b d' a' b' h h' hdp
    obtain ⟨k, hg⟩ := hmem hp
    obtain ⟨hne, hk⟩ := (h.mem_proposal hi hd hg).mp hdp
    rw [h'.mem_proposal hi hd hg, ← hk, Prod.mk.injEq,
      ← hc.root_eq (hids h).1 (hids h').1, ← hc.root_eq (hids h).1 (hids h').2,
      ← hc.root_eq (hids h).2 (hids h').1, ← hc.root_eq (hids h).2 (hids h').2]
    omega
  · intro p hp
    obtain ⟨k, hg⟩ := hmem hp
    obtain ⟨r, hr, hid, hconf⟩ := hg.representative
    obtain ⟨d, a, b, h, rfl⟩ :=
      (mem_clusteredRows hi).mp (List.mem_filter.mp (List.mem_filter.mp hr).1).1
    exact ⟨d, a, b, h, hg.decisions.mem_iff.mpr (List.mem_map_of_mem hr), hid, hconf⟩
  · intro p hp d a b h hdp
    obtain ⟨k, hg⟩ := hmem hp
    obtain ⟨r, hr, hid⟩ := List.mem_map.mp (hg.decisions.mem_iff.mp hdp)
    obtain ⟨d', a', b', h', rfl⟩ :=
      (mem_clusteredRows hi).mp (List.mem_filter.mp (List.mem_filter.mp hr).1).1
    obtain ⟨rfl, -, -⟩ := h'.unique hi hd h hid
    exact hg.greatest _ hr
  · intro p hp
    obtain ⟨k, hg⟩ := hmem hp
    refine ⟨hg.sorted, fun d a b h hdp x => ?_⟩
    obtain ⟨hne, hk⟩ := (h.mem_proposal hi hd hg).mp hdp
    rw [hg.series]
    constructor
    · rintro ⟨r, hr, hx⟩
      obtain ⟨hr, hrk⟩ := List.mem_filter.mp hr
      obtain ⟨d', a', b', h', rfl⟩ := (mem_clusteredRows hi).mp (List.mem_filter.mp hr).1
      have hrk : (min (rootOf clusters a') (rootOf clusters b'),
          max (rootOf clusters a') (rootOf clusters b')) = k := of_decide_eq_true hrk
      rw [← hk, Prod.mk.injEq] at hrk
      -- each of the two clusters of the row is one of those of the decision
      have hcluster : ∀ {y}, y ∈ ids → (rootOf clusters y = rootOf clusters a' ∨
          rootOf clusters y = rootOf clusters b') → x ∈ clusterOf clusters y →
          x ∈ ids ∧ (s.SameCluster t ids a x ∨ s.SameCluster t ids b x) := by
        intro y hy hroot hx
        obtain ⟨hxi, hyx⟩ := ((hc.cluster y hy).2 x).mp hx
        refine ⟨hxi, ?_⟩
        have hab : rootOf clusters a = rootOf clusters y ∨ rootOf clusters b = rootOf clusters y := by
          omega
        rcases hab with hab | hab
        · exact .inl (((hc.root_eq (hids h).1 hy).mp hab).trans hyx)
        · exact .inr (((hc.root_eq (hids h).2 hy).mp hab).trans hyx)
      rcases hx with hx | hx
      · exact hcluster (hids h').1 (.inl rfl) hx
      · exact hcluster (hids h').2 (.inr rfl) hx
    · rintro ⟨hxi, hx⟩
      refine ⟨clusteredRow clusters ⟨d.id, d.confidence, a, b⟩, ?_, ?_⟩
      · refine List.mem_filter.mpr ⟨List.mem_filter.mpr ⟨?_, decide_eq_true hne⟩,
          decide_eq_true hk⟩
        exact (mem_clusteredRows hi).mpr ⟨d, a, b, h, rfl⟩
      · rcases hx with hx | hx
        · exact .inl (((hc.cluster a (hids h).1).2 x).mpr ⟨hxi, hx⟩)
        · exact .inr (((hc.cluster b (hids h).2).2 x).mpr ⟨hxi, hx⟩)

end Gallery

/-! ## The parts of a batch -/

/-- The parts are the connected components of the proposals that share a series. -/
structure ProposalParts (proposals : List MatchProposal)
    (parts : List (Component MatchProposal Nat)) : Prop where
  perm : (parts.flatMap (·.members)).Perm proposals
  nonempty : ∀ part ∈ parts, part.members ≠ []
  series : ∀ part ∈ parts, part.keys.Pairwise (· < ·) ∧
    ∀ x, x ∈ part.keys ↔ ∃ p ∈ part.members, x ∈ p.seriesIds
  connected : ∀ part ∈ parts, ∀ p ∈ part.members, ∀ q ∈ part.members,
    ReflTransGen (Sweep.Adjacent MatchProposal.seriesIds part.members) p q
  disjoint : parts.Pairwise fun part part' => List.Disjoint part.keys part'.keys

theorem connectedProposalComponents_spec (proposals : List MatchProposal) :
    ProposalParts proposals (connectedProposalComponents proposals) := by
  have hpart : ∀ {part}, part ∈ connectedProposalComponents proposals →
      ∃ c ∈ components MatchProposal.seriesIds proposals,
        part = ⟨c.members, distinctSorted c.keys⟩ := by
    intro part h
    obtain ⟨c, hc, rfl⟩ := List.mem_map.mp h
    exact ⟨c, hc, rfl⟩
  refine ⟨?_, fun part h => ?_, fun part h => ?_, fun part h => ?_, ?_⟩
  · rw [connectedProposalComponents, List.flatMap_map]
    exact components_perm proposals
  · obtain ⟨c, hc, rfl⟩ := hpart h
    exact (components_sound hc).2.2
  · obtain ⟨c, hc, rfl⟩ := hpart h
    refine ⟨distinctSorted_pairwise _, fun x => ?_⟩
    exact mem_distinctSorted.trans ((components_sound hc).1 x)
  · obtain ⟨c, hc, rfl⟩ := hpart h
    exact (components_sound hc).2.1
  · refine List.pairwise_map.mpr ((components_disjoint proposals).imp fun {c c'} h x hx hx' => ?_)
    exact h (mem_distinctSorted.mp hx) (mem_distinctSorted.mp hx')

/-- The pending decisions are partitioned by the clusters that they join, and a batch of proposals
by the series that they share. -/
theorem review_queue_partitions (t : CatalogText) (s : Gallery) (seriesPair : Option (Nat × Nat))
    (hi : Table.Keyed CatalogSourceSeries.id s.identities)
    (hd : Table.Keyed CatalogMatchDecision.id s.decisions) :
    (∃ proposals, s.pendingMatchProposalIndex t seriesPair = some proposals ∧
      s.ReviewIndex t seriesPair proposals) ∧
    ∀ proposals, ProposalParts proposals (connectedProposalComponents proposals) :=
  ⟨Gallery.pendingMatchProposalIndex_spec hi hd, connectedProposalComponents_spec⟩

/-- Four decisions over five series, two of which are one listing under two ids. -/
def reviewedGallery : Gallery :=
  { identities :=
      [{ id := 1, seriesId := 1, source := "mangadex", sourceId := "blue-box-0000aaaa", url := ""
         title := "Ao no Hako" },
       { id := 2, seriesId := 2, source := "mangadex", sourceId := "Blue Box", url := ""
         title := "Blue Box" },
       { id := 3, seriesId := 3, source := "asura", sourceId := "77", url := ""
         title := "The Blue Box" },
       { id := 4, seriesId := 4, source := "asura", sourceId := "80", url := "", title := "Red Box" }]
    decisions :=
      [{ id := 1, leftSourceSeriesId := 1, rightSourceSeriesId := 3, confidence := 1 },
       { id := 2, leftSourceSeriesId := 3, rightSourceSeriesId := 2, confidence := 2 },
       { id := 3, leftSourceSeriesId := 1, rightSourceSeriesId := 2, confidence := 3 },
       { id := 4, leftSourceSeriesId := 4, rightSourceSeriesId := 3, confidence := 1 }] }

theorem reviewedGallery_partitions :
    (reviewedGallery.pendingMatchProposalIndex asciiCatalog none =
      some [⟨2, 2, [1, 2], [1, 2, 3]⟩, ⟨4, 1, [4], [3, 4]⟩]) ∧
    ∃ proposals, reviewedGallery.pendingMatchProposalIndex asciiCatalog none = some proposals ∧
      reviewedGallery.ReviewIndex asciiCatalog none proposals :=
  ⟨by decide +kernel,
    (review_queue_partitions asciiCatalog reviewedGallery none (by decide) (by decide)).1⟩

/-- They are one part, since the third series is in both. -/
example : (connectedProposalComponents [⟨2, 2, [1, 2], [1, 2, 3]⟩, ⟨5, 1, [5], [8, 9]⟩,
    ⟨4, 1, [4], [3, 4]⟩]).map (·.keys) = [[1, 2, 3, 4], [8, 9]] := by
  decide +kernel

end MangaManager
