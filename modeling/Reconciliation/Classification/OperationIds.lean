/-
  Reconciliation.Classification.OperationIds — when the ids of the operations are told apart.

  An id names the type of its operation, so ids of different types differ. Matches, updates
  and moves are told apart wherever the regions are; a delete or an insert is named after its
  node and a reorder after its source parent, so they are told apart exactly when none is
  reported by two regions (`classify_ids`).
-/
import Reconciliation.Base.Fields
import Reconciliation.Classification.ClassifiersProofs

namespace Reconciliation.Classification

open Reconciliation.Base Reconciliation.Contracts Reconciliation.Alignment Reconciliation.Matching
  Reconciliation.Validation

/-! ## Ids as texts -/

/-- The text an id holds of a pair. -/
def arrow (s t : NodeRef) : String := s ++ "->" ++ t

theorem regionIdFor_eq_iff {p q p' q' : NodeRef} : regionIdFor p q = regionIdFor p' q' ↔ arrow p q = arrow p' q' := by
  unfold regionIdFor arrow
  rw [String.append_assoc, String.append_assoc, String.append_assoc, String.append_assoc, String.append_right_inj,
    String.append_assoc, String.append_assoc]

/-- Pairs whose sources hold no hyphen are told apart. -/
theorem arrow_cancel {s t s' t' : NodeRef} (hs : Fields.Sealed '-' s) (hs' : Fields.Sealed '-' s')
    (h : arrow s t = arrow s' t') : s = s' ∧ t = t' := by
  have hends : ∀ r : NodeRef, Fields.Ends '-' ("->" ++ r) := by
    intro r c hc
    simpa [eq_comm] using hc
  rw [arrow, arrow, String.append_assoc, String.append_assoc] at h
  obtain ⟨hsource, htarget⟩ := hs.cancel hs' (hends t) (hends t') h
  exact ⟨hsource, (String.append_right_inj "->").mp htarget⟩

/-- The beginning of an id, which tells the type. -/
def tag (operationId : String) : List Char := operationId.toList.take 6

theorem tag_append (s t : String) (h : 6 ≤ s.toList.length) : tag (s ++ t) = tag s := by
  unfold tag
  rw [String.toList_append, List.take_append_of_le_length h]

section Ids
variable (ctx : ClassificationContext) (s t p q : NodeRef) (u : Bool)

theorem matchOf_id : (matchOf ctx s t).operationId =
    ("op:" ++ lowercase (matchOf ctx s t).type ++ ":") ++ arrow s t := by
  simp [matchOf, matchFields, arrow, String.append_assoc]

theorem moveOf_id : (moveOf ctx s t).operationId = "op:move:" ++ arrow s t := by
  simp [moveOf, moveFields, arrow, String.append_assoc]

theorem matchOf_tag : tag (matchOf ctx s t).operationId = tag ("op:" ++ lowercase (matchOf ctx s t).type ++ ":") := by
  rw [matchOf_id]
  refine tag_append _ _ ?_
  rcases matchOf_kept ctx s t with he | he
  · rw [he]
    decide
  · rw [he]
    decide

theorem moveOf_tag : tag (moveOf ctx s t).operationId = tag "op:move:" := by
  rw [moveOf_id]
  exact tag_append _ _ (by decide)

theorem deleteFields_tag : tag (deleteFields u s).operationId = tag "op:delete:" := tag_append _ _ (by decide)

theorem insertFields_tag : tag (insertFields u t).operationId = tag "op:insert:" := tag_append _ _ (by decide)

theorem reorderOf_tag : tag (reorderOf ctx p q).operationId = tag "op:reorder:" := tag_append _ _ (by decide)

end Ids

/-- What is reported tells its type in its id. -/
theorem Reported.tag_eq {ctx : ClassificationContext} {ap : AlignmentProfile} {D : Comparison NodeRef NodeRef}
    {certainty : NodeRef → NodeRef → ℚ} {x : StructuralOperationFields} (hx : Reported ctx ap D certainty x) :
    tag x.operationId = tag ("op:" ++ lowercase x.type ++ ":") ∧ x.type ∈ initialOperations := by
  cases hx with
  | @aligned s t ha hen =>
    refine ⟨matchOf_tag ctx s t, ?_⟩
    rcases matchOf_kept ctx s t with he | he
    · rw [he]
      decide
    · rw [he]
      decide
  | deleted ha hu hen => exact ⟨deleteFields_tag _ _, by simp [initialOperations]⟩
  | inserted ha hu hen => exact ⟨insertFields_tag _ _, by simp [initialOperations]⟩
  | moved hm hen => exact ⟨moveOf_tag _ _ _, by simp [initialOperations]⟩
  | reordered hpq hs hen => exact ⟨reorderOf_tag _ _ _, by simp [initialOperations]⟩

/-- Equal ids belong to operations of one type. -/
theorem Reported.type_eq {ctx : ClassificationContext} {ap : AlignmentProfile} {D : Comparison NodeRef NodeRef}
    {certainty : NodeRef → NodeRef → ℚ} {x y : StructuralOperationFields} (hx : Reported ctx ap D certainty x)
    (hy : Reported ctx ap D certainty y) (hid : x.operationId = y.operationId) : x.type = y.type := by
  have htag : ∀ a ∈ initialOperations, ∀ b ∈ initialOperations,
      tag ("op:" ++ lowercase a ++ ":") = tag ("op:" ++ lowercase b ++ ":") → a = b := by
    decide
  obtain ⟨hxt, hxi⟩ := hx.tag_eq
  obtain ⟨hyt, hyi⟩ := hy.tag_eq
  exact htag _ hxi _ hyi (hxt.symm.trans ((congrArg tag hid).trans hyt))

/-- Operations of different types have different ids. -/
theorem ids_apart {ctx : ClassificationContext} {ap : AlignmentProfile} {D : Comparison NodeRef NodeRef}
    {certainty : NodeRef → NodeRef → ℚ} {l m : List StructuralOperation} {types types' : List OperationType}
    (hl : ∀ op ∈ l, op.val.type ∈ types) (hm : ∀ op ∈ m, op.val.type ∈ types') (hdisjoint : ∀ t ∈ types, t ∉ types')
    (hlr : ∀ op ∈ l, Reported ctx ap D certainty op.val) (hmr : ∀ op ∈ m, Reported ctx ap D certainty op.val) :
    ∀ i ∈ l.map (·.val.operationId), ∀ j ∈ m.map (·.val.operationId), i ≠ j := by
  intro i hi j hj hij
  obtain ⟨a, ha, rfl⟩ := List.mem_map.mp hi
  obtain ⟨b, hb, rfl⟩ := List.mem_map.mp hj
  exact hdisjoint _ (hl a ha) ((hlr a ha).type_eq (hmr b hb) hij ▸ hm b hb)

/-! ## One report for each node -/

/-- No node is reported absent by two regions, and no source parent reordered by two. -/
structure ReportedOnce (D : Comparison NodeRef NodeRef) (certainty : NodeRef → NodeRef → ℚ)
    (profile : OperationProfile) (OrderDiffers : NodeRef → NodeRef → Prop) : Prop where
  deleted : .delete ∈ profile.enabledOperations → ∀ s p q p' q', AbsentIn D certainty profile p q s →
    AbsentIn D certainty profile p' q' s → q = q'
  inserted : .insert ∈ profile.enabledOperations → ∀ t p q p' q', AbsentIn D.swap (fun b a => certainty a b) profile q p t →
    AbsentIn D.swap (fun b a => certainty a b) profile q' p' t → p = p'
  reordered : .reorder ∈ profile.enabledOperations → ∀ p q q', D.Paired p q → D.Paired p q' → OrderDiffers p q →
    OrderDiffers p q' → q = q'

/-- A presence operation is named after its node. -/
theorem deleteFields_id_inj {u u' : Bool} {s s' : NodeRef}
    (h : (deleteFields u s).operationId = (deleteFields u' s').operationId) : s = s' :=
  (String.append_right_inj _).mp h

theorem insertFields_id_inj {u u' : Bool} {t t' : NodeRef}
    (h : (insertFields u t).operationId = (insertFields u' t').operationId) : t = t' :=
  (String.append_right_inj _).mp h

theorem deleteFields_id_ne {u u' : Bool} {s t : NodeRef} :
    (deleteFields u s).operationId ≠ (insertFields u' t).operationId := by
  intro h
  have htag := congrArg tag h
  rw [deleteFields_tag, insertFields_tag] at htag
  exact absurd htag (by decide)

/-- Presence operations with one id come from positions of one node. -/
theorem Presence.same_of_id {ctx : ClassificationContext} {D : Comparison NodeRef NodeRef} {ms mt : List NodeRef}
    {c c' : AlignedPair} {op op' : StructuralOperation} (h : Presence ctx D ms mt c op)
    (h' : Presence ctx D ms mt c' op') (hid : op.val.operationId = op'.val.operationId) : c = c' := by
  rcases h with ⟨s, hx, -, -, -, -, hval⟩ | ⟨t, hx, -, -, -, -, hval⟩
  · rcases h' with ⟨s', hx', -, -, -, -, hval'⟩ | ⟨t', -, -, -, -, -, hval'⟩
    · rw [hval, hval'] at hid
      obtain rfl := deleteFields_id_inj hid
      exact Checked.ext_val (hx.trans hx'.symm)
    · rw [hval, hval'] at hid
      exact absurd hid deleteFields_id_ne
  · rcases h' with ⟨s', -, -, -, -, -, hval'⟩ | ⟨t', hx', -, -, -, -, hval'⟩
    · rw [hval, hval'] at hid
      exact absurd hid.symm deleteFields_id_ne
    · rw [hval, hval'] at hid
      obtain rfl := insertFields_id_inj hid
      exact Checked.ext_val (hx.trans hx'.symm)

/-- A position emits one presence operation at most. -/
theorem Presence.op_unique {ctx : ClassificationContext} {D : Comparison NodeRef NodeRef} {ms mt : List NodeRef}
    {c : AlignedPair} {op op' : StructuralOperation} (h : Presence ctx D ms mt c op) (h' : Presence ctx D ms mt c op') :
    op = op' := by
  rcases h with ⟨s, -, hs, -, -, -, hval⟩ | ⟨t, -, ht, -, -, -, hval⟩
  · rcases h' with ⟨s', -, hs', -, -, -, hval'⟩ | ⟨t', -, ht', -⟩
    · obtain rfl := hs.unique hs'
      exact Checked.ext_val (hval.trans hval'.symm)
    · exact absurd ht' hs.not_target
  · rcases h' with ⟨s', -, hs', -⟩ | ⟨t', -, ht', -, -, -, hval'⟩
    · exact absurd ht hs'.not_target
    · obtain rfl := ht.unique ht'
      exact Checked.ext_val (hval.trans hval'.symm)

namespace Agrees
variable {ctx : ClassificationContext} {ap : AlignmentProfile} {D : Comparison NodeRef NodeRef}
  {certainty : NodeRef → NodeRef → ℚ} (h : Agrees ctx ap D certainty) {p q p' q' s t s' t' : NodeRef}

include h

/-- The texts of paired parents are told apart, since their regions are. -/
theorem arrow_inj (hpq : D.Paired p q) (hpq' : D.Paired p' q') (harrow : arrow p q = arrow p' q') : p = p' ∧ q = q' := by
  have hdistinct := (align_total_iff fun p q hpq => h.paired_known (h.paired_iff.mp hpq)).mp ⟨_, h.aligned⟩
  exact hdistinct p q p' q' (h.paired_iff.mpr hpq) (h.paired_iff.mpr hpq') (regionIdFor_eq_iff.mpr harrow)

omit h in
/-- The parents of a region tell it. -/
theorem region_unique {r r' : AlignedRegion} (hr : r ∈ ctx.alignment.val.regions) (hr' : r' ∈ ctx.alignment.val.regions)
    (hregion : IsRegion ctx.source ctx.target ctx.graph ap p q r)
    (hregion' : IsRegion ctx.source ctx.target ctx.graph ap p q r') : r = r' :=
  List.inj_on_of_nodup_map ctx.alignment.regionIds_nodup hr hr' (hregion.id_eq.trans hregion'.id_eq.symm)

theorem matchUpdate_ids {ops : List StructuralOperation} (hrun : matchUpdate ctx = .ok ops) :
    (ops.map (·.val.operationId)).Nodup := by
  obtain ⟨ops', hrun', hnodup, hmem⟩ := h.matchUpdate_run
  obtain rfl := Except.ok.inj (hrun.symm.trans hrun')
  refine hnodup.map_on fun a ha b hb hid => ?_
  obtain ⟨s, t, hst, hval, hen⟩ := (hmem a).mp ha
  obtain ⟨s', t', hst', hval', hen'⟩ := (hmem b).mp hb
  have htype : a.val.type = b.val.type := by
    rw [hval] at hen
    rw [hval'] at hen'
    have hx : Reported ctx ap D certainty a.val := hval ▸ .aligned hst hen
    exact hx.type_eq (hval' ▸ .aligned hst' hen') hid
  rw [hval, hval', matchOf_id, matchOf_id, ← hval, ← hval', htype, String.append_right_inj] at hid
  obtain ⟨rfl, rfl⟩ := h.arrow_inj (Or.inr hst.1) (Or.inr hst'.1) hid
  exact Checked.ext_val (hval.trans hval'.symm)

theorem move_ids {ops : List StructuralOperation} (hrun : move ctx = .ok ops) : (ops.map (·.val.operationId)).Nodup := by
  obtain ⟨ops', hrun', hnodup, hmem⟩ := h.move_run
  obtain rfl := Except.ok.inj (hrun.symm.trans hrun')
  refine hnodup.map_on fun a ha b hb hid => ?_
  obtain ⟨s, t, hst, -, hval⟩ := (hmem a).mp ha
  obtain ⟨s', t', hst', -, hval'⟩ := (hmem b).mp hb
  rw [hval, hval', moveOf_id, moveOf_id, String.append_right_inj] at hid
  obtain ⟨rfl, rfl⟩ := h.arrow_inj (Or.inr hst.1.1) (Or.inr hst'.1.1) hid
  exact Checked.ext_val (hval.trans hval'.symm)

theorem reorder_ids {ops : List StructuralOperation} (hrun : reorder ctx = .ok ops) :
    (ops.map (·.val.operationId)).Nodup ↔ (.reorder ∈ ctx.profile.enabledOperations → ∀ p q q', D.Paired p q →
      D.Paired p q' → Shuffled ctx ap p q → Shuffled ctx ap p q' → q = q') := by
  obtain ⟨ops', hrun', hnodup, hmem⟩ := h.reorder_run
  obtain rfl := Except.ok.inj (hrun.symm.trans hrun')
  constructor
  · intro hids hen p q q' hpq hpq' hs hs'
    have hop : ∀ {q}, D.Paired p q → Shuffled ctx ap p q → ∃ op ∈ ops, op.val = reorderOf ctx p q := by
      intro q hpq hs
      have hcheck := reorderOf_check ctx hs
      exact ⟨⟨_, hcheck⟩, (hmem _).mpr ⟨p, q, hpq, hs, hen, rfl⟩, rfl⟩
    obtain ⟨a, ha, hval⟩ := hop hpq hs
    obtain ⟨b, hb, hval'⟩ := hop hpq' hs'
    have hab : a = b := List.inj_on_of_nodup_map hids ha hb (by rw [hval, hval']; rfl)
    have he : reorderOf ctx p q = reorderOf ctx p q' := by rw [← hval, ← hval', hab]
    exact (h.reorderOf_unique hpq hpq' hs (congrArg StructuralOperationFields.sourceNodeRefs he)
      (congrArg StructuralOperationFields.targetNodeRefs he)).2
  · intro honce
    refine hnodup.map_on fun a ha b hb hid => ?_
    obtain ⟨p, q, hpq, hs, hen, hval⟩ := (hmem a).mp ha
    obtain ⟨p', q', hpq', hs', -, hval'⟩ := (hmem b).mp hb
    rw [hval, hval'] at hid
    obtain rfl : p = p' := (String.append_right_inj _).mp hid
    obtain rfl := honce hen p q q' hpq hpq' hs hs'
    exact Checked.ext_val (hval.trans hval'.symm)

/-- A region whose presence operations are looked at is reported. -/
theorem reported_region {r : AlignedRegion}
    (hr : r ∈ ctx.alignment.val.regions.filter fun region => !ctx.presenceSuppressedRegion region) :
    ∃ p q, IsRegion ctx.source ctx.target ctx.graph ap p q r ∧ D.Paired p q ∧ ¬ RegionWithheld D ctx.profile p q := by
  obtain ⟨hr, hs⟩ := List.mem_filter.mp hr
  obtain ⟨p, q, hpq, hregion⟩ := region_parents h.aligned hr
  replace hpq := h.paired_iff.mp hpq
  exact ⟨p, q, hregion, hpq, fun hw => by simp [(h.suppressedRegion_iff hregion hpq).mpr hw] at hs⟩

section Presences
variable {ms mt : List NodeRef} (hms : ∀ s, s ∈ ms ↔ ∃ t, Moved D certainty ctx.profile s t)
  (hmt : ∀ t, t ∈ mt ↔ ∃ s, Moved D.swap (fun b a => certainty a b) ctx.profile t s)

include hms hmt in
/-- A presence operation comes from a position of its region. -/
theorem exists_presence {op : StructuralOperation} (hop : PresenceIn ctx D certainty p q op) :
    ∃ r, r ∈ ctx.alignment.val.regions.filter (fun region => !ctx.presenceSuppressedRegion region) ∧
      IsRegion ctx.source ctx.target ctx.graph ap p q r ∧ ∃ c ∈ r.val.pairs, Presence ctx D ms mt c op := by
  obtain ⟨hpq, hw⟩ := hop.region
  obtain ⟨r, hr, hregion⟩ := exists_region h.aligned (h.paired_iff.mpr hpq)
  refine ⟨r, List.mem_filter.mpr ⟨hr, ?_⟩, hregion, (h.presence_region hms hmt hregion hpq hw).mpr hop⟩
  rw [Bool.not_eq_true', ← Bool.not_eq_true, h.suppressedRegion_iff hregion hpq]
  exact hw

/-- Two positions of one region have presence operations of different ids. -/
theorem presences_apart {r : AlignedRegion} (hr : r ∈ ctx.alignment.val.regions) :
    r.val.pairs.Pairwise fun c c' => ∀ op op', Presence ctx D ms mt c op → Presence ctx D ms mt c' op' →
      op.val.operationId ≠ op'.val.operationId := by
  obtain ⟨p, q, -, hregion⟩ := region_parents h.aligned hr
  have hnodup : r.val.pairs.Nodup := by
    refine List.Nodup.of_map Checked.val ?_
    rw [hregion.pairs_eq]
    exact Alignment.positions_nodup (Rooted.children_nodup _) (Rooted.children_nodup _)
  exact hnodup.imp fun hne op op' hop hop' hid => hne (hop.same_of_id hop' hid)

end Presences

/-- The ids of the presence operations are told apart exactly when no two regions report one node. -/
theorem presence_ids {ops : List StructuralOperation} (hrun : insertDelete ctx = .ok ops) :
    (ops.map (·.val.operationId)).Nodup ↔ ∀ p q p' q' op op', PresenceIn ctx D certainty p q op →
      PresenceIn ctx D certainty p' q' op' → op.val.operationId = op'.val.operationId → p = p' ∧ q = q' := by
  obtain ⟨ms, mt, found, hms, hmt, hemits, hfound, hrun'⟩ := h.insertDelete_emits
  obtain rfl := Except.ok.inj (hrun.symm.trans hrun')
  rw [Outcome.emits_keys (fun op : StructuralOperation => op.val.operationId) hemits hfound,
    and_iff_right fun c _ b b' hb hb' _ => hb.op_unique hb', presencePositions, List.pairwise_flatMap,
    and_iff_right fun r hr => h.presences_apart (List.mem_of_mem_filter hr)]
  have hsymm : Std.Symm fun r r' : AlignedRegion => ∀ c ∈ r.val.pairs, ∀ c' ∈ r'.val.pairs, ∀ op op',
      Presence ctx D ms mt c op → Presence ctx D ms mt c' op' → op.val.operationId ≠ op'.val.operationId :=
    ⟨fun r r' hapart c hc c' hc' op op' hop hop' => (hapart c' hc' c hc op' op hop' hop).symm⟩
  constructor
  · intro hapart p q p' q' op op' hop hop' hid
    obtain ⟨r, hr, hregion, c, hc, hop⟩ := h.exists_presence hms hmt hop
    obtain ⟨r', hr', hregion', c', hc', hop'⟩ := h.exists_presence hms hmt hop'
    by_cases hrr : r = r'
    · subst hrr
      exact ⟨Option.some.inj (hregion.source_eq.symm.trans hregion'.source_eq),
        Option.some.inj (hregion.target_eq.symm.trans hregion'.target_eq)⟩
    · exact absurd hid (hapart.forall hr hr' hrr c hc c' hc' op op' hop hop')
  · intro honce
    have hnodup : (ctx.alignment.val.regions.filter fun region => !ctx.presenceSuppressedRegion region).Nodup :=
      (List.Nodup.of_map _ ctx.alignment.regionIds_nodup).filter _
    refine hnodup.pairwise_of_forall_ne fun r hr r' hr' hne c hc c' hc' op op' hop hop' hid => hne ?_
    obtain ⟨p, q, hregion, hpq, hw⟩ := h.reported_region hr
    obtain ⟨p', q', hregion', hpq', hw'⟩ := h.reported_region hr'
    obtain ⟨rfl, rfl⟩ := honce p q p' q' op op' ((h.presence_region hms hmt hregion hpq hw).mp ⟨c, hc, hop⟩)
      ((h.presence_region hms hmt hregion' hpq' hw').mp ⟨c', hc', hop'⟩) hid
    exact region_unique (List.mem_of_mem_filter hr) (List.mem_of_mem_filter hr') hregion hregion'

omit h in
/-- No two regions report one node, put for deletes and inserts apart. -/
theorem presence_once_iff : (∀ p q p' q' op op', PresenceIn ctx D certainty p q op →
      PresenceIn ctx D certainty p' q' op' → op.val.operationId = op'.val.operationId → p = p' ∧ q = q') ↔
    (.delete ∈ ctx.profile.enabledOperations → ∀ s p q p' q', AbsentIn D certainty ctx.profile p q s →
      AbsentIn D certainty ctx.profile p' q' s → q = q') ∧
    (.insert ∈ ctx.profile.enabledOperations → ∀ t p q p' q',
      AbsentIn D.swap (fun b a => certainty a b) ctx.profile q p t →
      AbsentIn D.swap (fun b a => certainty a b) ctx.profile q' p' t → p = p') := by
  classical
  constructor
  · intro honce
    constructor
    · intro hen s p q p' q' ha ha'
      have hu : decide (D.Open s) = true ↔ D.Open s := decide_eq_true_iff
      have hop : ∀ {p q}, AbsentIn D certainty ctx.profile p q s →
          PresenceIn ctx D certainty p q ⟨deleteFields (decide (D.Open s)) s, deleteFields_check _ s⟩ :=
        fun ha => Or.inl ⟨s, _, ha, hu, hen, rfl⟩
      exact (honce p q p' q' _ _ (hop ha) (hop ha') rfl).2
    · intro hen t p q p' q' ha ha'
      have hu : decide (D.swap.Open t) = true ↔ D.swap.Open t := decide_eq_true_iff
      have hop : ∀ {p q}, AbsentIn D.swap (fun b a => certainty a b) ctx.profile q p t →
          PresenceIn ctx D certainty p q ⟨insertFields (decide (D.swap.Open t)) t, insertFields_check _ t⟩ :=
        fun ha => Or.inr ⟨t, _, ha, hu, hen, rfl⟩
      exact (honce p q p' q' _ _ (hop ha) (hop ha') rfl).1
  · intro honce p q p' q' op op' hop hop' hid
    rcases hop with ⟨s, u, ha, -, hen, hval⟩ | ⟨t, u, ha, -, hen, hval⟩
    · rcases hop' with ⟨s', u', ha', -, -, hval'⟩ | ⟨t', u', -, -, -, hval'⟩
      · rw [hval, hval'] at hid
        obtain rfl := deleteFields_id_inj hid
        exact ⟨Option.some.inj (ha.1.2.1.symm.trans ha'.1.2.1), honce.1 hen s p q p' q' ha ha'⟩
      · rw [hval, hval'] at hid
        exact absurd hid deleteFields_id_ne
    · rcases hop' with ⟨s', u', -, -, -, hval'⟩ | ⟨t', u', ha', -, -, hval'⟩
      · rw [hval, hval'] at hid
        exact absurd hid.symm deleteFields_id_ne
      · rw [hval, hval'] at hid
        obtain rfl := insertFields_id_inj hid
        exact ⟨honce.2 hen t p q p' q' ha ha', Option.some.inj (ha.1.2.1.symm.trans ha'.1.2.1)⟩

/-- The ids of all operations are told apart exactly when each node is reported once. -/
theorem classify_ids {set : StructuralOperationSet} (hset : classify ctx = .ok set) :
    (set.operations.map (·.val.operationId)).Nodup ↔ ReportedOnce D certainty ctx.profile (Shuffled ctx ap) := by
  obtain ⟨set', hset', -, -, hmem⟩ := classify_run h
  obtain rfl := Except.ok.inj (hset.symm.trans hset')
  obtain ⟨matches_, hmatches, -⟩ := h.matchUpdate_run
  obtain ⟨presences, hpresences, -⟩ := h.insertDelete_run
  obtain ⟨moves, hmoves, -⟩ := h.move_run
  obtain ⟨reorders, hreorders, -⟩ := h.reorder_run
  unfold classify at hset
  simp only [hmatches, hpresences, hmoves, hreorders, bind, Except.bind, pure, Except.pure, Except.ok.injEq] at hset
  subst hset
  simp only [mem_sortedBy, List.mem_append] at hmem
  have hmatchReported : ∀ op ∈ matches_, Reported ctx ap D certainty op.val := fun op hop => (hmem op).mp (Or.inl hop)
  have hpresenceReported : ∀ op ∈ presences, Reported ctx ap D certainty op.val :=
    fun op hop => (hmem op).mp (Or.inr (Or.inl hop))
  have hmoveReported : ∀ op ∈ moves, Reported ctx ap D certainty op.val :=
    fun op hop => (hmem op).mp (Or.inr (Or.inr (Or.inl hop)))
  have hreorderReported : ∀ op ∈ reorders, Reported ctx ap D certainty op.val :=
    fun op hop => (hmem op).mp (Or.inr (Or.inr (Or.inr hop)))
  have htypes := insertDelete_types hpresences
  rw [((sortedBy_perm _ _).map _).nodup_iff, List.map_append, List.map_append, List.map_append, List.nodup_append,
    List.nodup_append, List.nodup_append, h.presence_ids hpresences, presence_once_iff, h.reorder_ids hreorders]
  constructor
  · intro hids
    obtain ⟨-, ⟨⟨hdeleted, hinserted⟩, ⟨-, hreordered, -⟩, -⟩, -⟩ := hids
    exact ⟨hdeleted, hinserted, hreordered⟩
  · intro honce
    have hmoveReorder := ids_apart (move_types hmoves) (reorder_types hreorders) (by decide) hmoveReported hreorderReported
    have hpresenceMove := ids_apart htypes (move_types hmoves) (by decide) hpresenceReported hmoveReported
    have hpresenceReorder := ids_apart htypes (reorder_types hreorders) (by decide) hpresenceReported hreorderReported
    have hmatchTypes := matchUpdate_types hmatches
    have hmatchPresence := ids_apart hmatchTypes htypes (by decide) hmatchReported hpresenceReported
    have hmatchMove := ids_apart hmatchTypes (move_types hmoves) (by decide) hmatchReported hmoveReported
    have hmatchReorder := ids_apart hmatchTypes (reorder_types hreorders) (by decide) hmatchReported hreorderReported
    refine ⟨h.matchUpdate_ids hmatches, ⟨⟨honce.deleted, honce.inserted⟩, ⟨h.move_ids hmoves, honce.reordered,
      hmoveReorder⟩, fun i hi j hj => ?_⟩, fun i hi j hj => ?_⟩
    · rcases List.mem_append.mp hj with hj | hj
      · exact hpresenceMove i hi j hj
      · exact hpresenceReorder i hi j hj
    · rcases List.mem_append.mp hj with hj | hj
      · exact hmatchPresence i hi j hj
      · rcases List.mem_append.mp hj with hj | hj
        · exact hmatchMove i hi j hj
        · exact hmatchReorder i hi j hj

end Agrees

end Reconciliation.Classification
