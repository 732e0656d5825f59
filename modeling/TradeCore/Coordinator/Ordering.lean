import TradeCore.Coordinator.Bounds

/-!
# TradeCore.Coordinator.Ordering

The order in which legs are prepared and executed, and whether a batch gets through.

The legs of a batch all end up in one layer. A leg that names another one is checked against the
legs completed in earlier layers and fails; a leg that takes the output of an earlier one without
naming it runs beside it. `Moves` lists what an execution can do to the legs; the statuses it writes
are read off from it.
-/

namespace TradeCore
namespace Coordinator

open Lib

/-- What an execution does, seen from the legs. -/
inductive Moves (w : World) : Exec → Exec → Prop where
  | refl (s : Exec) : Moves w s s
  | batch {s s' s'' : Exec} : Moves w s s' → s''.legs = s'.legs → s''.trace = s'.trace → Moves w s s''
  | prepare {s s' : Exec} (i : Nat) (completedLegs : List Nat) :
      Moves w s s' → Moves w s (s'.turn i (prepareLeg w i completedLegs))
  | commit {s s' : Exec} (i : Nat) : Moves w s s' → Moves w s (s'.turn i (commitLeg w i))
  | rollback {s s' : Exec} (r : Rollback) (i : Nat) :
      Moves w s s' → Moves w s (s'.turn i fun l => (rollbackLeg w r i l).1)
  | reload {s s' : Exec} : Moves w s s' → Moves w s s'.reload

section Moves

variable {w : World} {s s' : Exec}

theorem Moves.trans {s'' : Exec} (h : Moves w s s') (h' : Moves w s' s'') : Moves w s s'' := by
  induction h' with
  | refl => exact h
  | batch _ hl ht ih => exact ih.batch hl ht
  | prepare i completedLegs _ ih => exact ih.prepare i completedLegs
  | commit i _ ih => exact ih.commit i
  | rollback r i _ ih => exact ih.rollback r i
  | reload _ ih => exact ih.reload

theorem Moves.set (h : Moves w s s') (status : BatchStatus) : Moves w s (s'.set status) := h.batch rfl rfl

theorem Moves.save (h : Moves w s s') : Moves w s s'.save := h.batch rfl rfl

theorem moves_prepareTurns (completedLegs order : List Nat) (s : Exec) :
    Moves w s (order.foldl (fun s i => s.turn i (prepareLeg w i completedLegs)) s) := by
  induction order generalizing s with
  | nil => exact .refl s
  | cons i order ih => exact ((Moves.refl s).prepare i completedLegs).trans (ih _)

theorem moves_prepareLayers (layers : List (List Nat)) (completedLegs failedLegs : List Nat) (s : Exec) :
    Moves w s (prepareLayers w layers completedLegs failedLegs s).1 := by
  induction layers generalizing completedLegs failedLegs s with
  | nil => exact .refl s
  | cons layer rest ih => exact (moves_prepareTurns _ _ s).trans (ih _ _ _)

theorem moves_preparePhase (s : Exec) : Moves w s (preparePhase w s).1 := by
  have h0 : Moves w s (s.set .preparing) := (Moves.refl s).set .preparing
  unfold preparePhase
  dsimp only
  split
  · exact h0
  · split
    · exact h0.save
    · rename_i graph _
      have h1 := h0.save.trans
        (moves_prepareLayers graph.executionLayers [] [] (s.set .preparing).save)
      split
      · rename_i s1 hs1
        rw [hs1] at h1
        split
        · exact h1
        · split
          · exact h1
          · split
            · exact h1.batch rfl rfl
            · exact h1.batch rfl rfl
      · rename_i s1 i is hs1
        rw [hs1] at h1
        exact h1

theorem moves_commitTurns (order : List Nat) (st : Exec × Tally) :
    Moves w st.1 (order.foldl (commitTurn w) st).1 := by
  induction order generalizing st with
  | nil => exact .refl _
  | cons i order ih =>
    have hone : Moves w st.1 (commitTurn w st i).1 := by
      unfold commitTurn
      split
      · exact (Moves.refl _).commit i
      · exact .refl _
    exact hone.trans (ih _)

theorem moves_commitLayers (layers : List (List Nat)) (st : Exec × Tally) :
    Moves w st.1 (commitLayers w layers st).1 := by
  induction layers generalizing st with
  | nil => exact .refl _
  | cons layer rest ih =>
    have h := moves_commitTurns (w := w) (w.commitTurns layer) st
    unfold commitLayers
    dsimp only
    split
    · exact h.trans (ih _)
    · exact h

theorem moves_rollbackEach (r : Rollback) (indices : List Nat) (s : Exec) :
    Moves w s (rollbackEach w r indices s).1 := by
  induction indices generalizing s with
  | nil => exact .refl s
  | cons i rest ih =>
    unfold rollbackEach
    split
    · split
      · dsimp only
        split
        · exact ((Moves.refl s).rollback r i).trans (ih _)
        · exact (Moves.refl s).rollback r i
      · exact ih s
    · exact ih s

theorem moves_undo (t : Tally) (s : Exec) : Moves w s (commitPhase.undo w t s).1 := by
  have h := moves_rollbackEach (w := w) .inCommit
    (t.committedLegs.mergeSort fun a b => decide (b ≤ a)) s
  unfold commitPhase.undo rollbackLegs
  split
  · rename_i s1 hs1
    rw [hs1] at h
    exact h
  · rename_i s1 hs1
    rw [hs1] at h
    dsimp only
    split
    · exact h.set _
    · exact (h.set _).save

theorem moves_commitPhase (s : Exec) : Moves w s (commitPhase w s).1 := by
  have h0 : Moves w s (s.set .committing) := (Moves.refl s).set .committing
  unfold commitPhase
  dsimp only
  split
  · exact h0
  · split
    · exact h0.save
    · split
      · exact h0.save
      · rename_i graph _
        have h1 := h0.save.trans (moves_commitLayers graph.executionLayers
          ((s.set .committing).save, ⟨[], [], []⟩))
        split
        · unfold commitPhase.finish
          dsimp only
          split
          · exact h1.batch rfl rfl
          · exact h1.batch rfl rfl
        · exact h1.trans (moves_undo _ _)

theorem moves_rollbackPhase (s : Exec) : Moves w s (rollbackPhase w s).1 := by
  have h0 : Moves w s (s.set .rollingBack) := (Moves.refl s).set .rollingBack
  unfold rollbackPhase
  dsimp only
  split
  · exact h0
  · split
    · exact h0.save
    · have h1 := h0.save.reload.trans (moves_rollbackEach (w := w) .inPhase
        (s.set .rollingBack).save.executedDesc (s.set .rollingBack).save.reload)
      split
      · rename_i s1 hs1
        rw [hs1] at h1
        exact h1
      · rename_i s1 hs1
        rw [hs1] at h1
        split
        · exact h1.set _
        · exact (h1.set _).save

theorem moves_afterBody (batch : TransactionBatch) (legs : List BatchLeg) :
    Moves w (executeBatch.body w (.start batch legs)).1 (executeBatch w batch legs).1 := by
  unfold executeBatch
  split
  · rename_i s res hs
    rw [hs]
    exact .refl s
  · rename_i s hs
    rw [hs]
    have h := moves_rollbackPhase (w := w) s
    split
    · rename_i s1 hs1
      rw [hs1] at h
      exact h
    · rename_i s1 hs1
      rw [hs1] at h
      exact h

theorem moves_body (s : Exec) : Moves w s (executeBatch.body w s).1 := by
  unfold executeBatch.body
  split
  · exact .refl s
  · split
    · exact .refl s
    · split
      · exact .refl s
      · have h := moves_preparePhase (w := w) s
        split
        · rename_i s1 hs1
          rw [hs1] at h
          exact h
        · rename_i s1 hs1
          rw [hs1] at h
          exact h.trans (moves_commitPhase s1)

theorem moves_executeBatch (batch : TransactionBatch) (legs : List BatchLeg) :
    Moves w (.start batch legs) (executeBatch w batch legs).1 :=
  (moves_body _).trans (moves_afterBody batch legs)

/-- Nothing that has been written is taken back. -/
theorem Moves.trace (h : Moves w s s') : s.trace <+: s'.trace := by
  induction h with
  | refl => exact List.prefix_refl _
  | batch _ _ ht ih => rw [ht]; exact ih
  | prepare i completedLegs _ ih => exact ih.trans (List.prefix_append _ _)
  | commit i _ ih => exact ih.trans (List.prefix_append _ _)
  | rollback r i _ ih => exact ih.trans (List.prefix_append _ _)
  | reload _ ih => exact ih

/-! ### Legs whose condition can never hold -/

/-- The number a condition compares with cannot be read. -/
def BatchLeg.NeverMet (leg : BatchLeg) : Prop := ∃ type, leg.condition = some (type, none)

theorem skips_of_neverMet {leg : BatchLeg} (h : leg.NeverMet) (w : World) (i : Nat) :
    skips w i leg = true := by
  obtain ⟨type, hc⟩ := h
  unfold skips evaluateLegCondition
  rw [hc]
  cases w.price i with
  | none => rfl
  | some x => cases x <;> rfl

/-- A leg that is not prepared and never will be. -/
structure Inert (l : LegState) : Prop where
  leg : l.leg.status ≠ .prepared
  row : l.row.status ≠ .prepared
  legNever : l.leg.NeverMet
  rowNever : l.row.NeverMet

/-- What a leg that is inert may write. -/
def quiet (status : LegStatus) : Prop := status ≠ .prepared ∧ status ≠ .executed

/-- From `l` to `l'` a leg has stayed inert and written nothing that says otherwise. -/
def StaysInert (l l' : LegState) : Prop :=
  Inert l' ∧ ∃ new, l'.saved = l.saved ++ new ∧ ∀ status ∈ new, quiet status

theorem StaysInert.refl {l : LegState} (h : Inert l) : StaysInert l l :=
  ⟨h, [], (List.append_nil _).symm, by simp⟩

theorem StaysInert.set {l l' : LegState} (h : StaysInert l l') {status : LegStatus}
    (hs : quiet status) : StaysInert l (l'.set status) :=
  ⟨⟨hs.1, h.1.row, h.1.legNever, h.1.rowNever⟩, h.2⟩

theorem StaysInert.write {l l' : LegState} (h : StaysInert l l') {status : LegStatus}
    (hs : quiet status) : StaysInert l (l'.set status).save := by
  obtain ⟨hi, new, hnew, hquiet⟩ := h
  refine ⟨⟨hs.1, hs.1, hi.legNever, hi.legNever⟩, new ++ [status], ?_, ?_⟩
  · rw [LegState.save_saved, LegState.set_saved, LegState.set_status, hnew, List.append_assoc]
  · intro status' hstatus
    rcases List.mem_append.mp hstatus with h | h
    · exact hquiet status' h
    · rw [List.mem_singleton.mp h]
      exact hs

theorem staysInert_prepareLeg (w : World) (i : Nat) (completedLegs : List Nat) {l : LegState}
    (h : Inert l) : StaysInert l (prepareLeg w i completedLegs l) := by
  have hfailed : quiet .failed := ⟨by decide, by decide⟩
  have hskipped : quiet .skipped := ⟨by decide, by decide⟩
  have hpreparing : quiet .preparing := ⟨by decide, by decide⟩
  have hskip : skips w i (l.set .preparing).save.leg = true := skips_of_neverMet h.legNever w i
  have h1 : StaysInert l (l.set .preparing).save := (StaysInert.refl h).write hpreparing
  -- the `try` block only fails or skips the leg, and the `catch` block fails it
  have hbody : StaysInert l (prepareLeg.body w i completedLegs (l.set .preparing).save).1 := by
    unfold prepareLeg.body
    simp only [hskip, if_true]
    split
    · split
      · exact h1.set hfailed
      · exact h1.write hfailed
    · split
      · exact h1.set hskipped
      · exact h1.write hskipped
  unfold prepareLeg
  dsimp only
  split
  · exact (StaysInert.refl h).set hpreparing
  · split
    · rename_i s hs
      rw [hs] at hbody
      exact hbody
    · rename_i s hs
      rw [hs] at hbody
      split
      · exact hbody.set hfailed
      · exact hbody.write hfailed

theorem staysInert_rollbackLeg (w : World) (r : Rollback) (i : Nat) {l : LegState} (h : Inert l) :
    StaysInert l (rollbackLeg w r i l).1 := by
  have hrolling : quiet .rollingBack := ⟨by decide, by decide⟩
  have hrolled : quiet .rolledBack := ⟨by decide, by decide⟩
  have h1 : StaysInert l (l.set .rollingBack).save := (StaysInert.refl h).write hrolling
  unfold rollbackLeg
  dsimp only
  split
  · exact (StaysInert.refl h).set hrolling
  · split
    · split
      · exact h1.set hrolled
      · exact h1.write hrolled
    · split
      · split
        · exact h1.write hrolled
        · exact (h1.write hrolled).write hrolled
      · exact h1.write hrolled

/-- The leg `j` is inert and has written nothing that says otherwise. -/
def InertAt (j : Nat) (s : Exec) : Prop :=
  (∀ l, s.legs[j]? = some l → Inert l) ∧ ∀ status, (j, status) ∈ s.trace → quiet status

theorem InertAt.turn {j i : Nat} (h : InertAt j s) {f : LegState → LegState}
    (hf : i = j → ∀ l, Inert l → StaysInert l (f l)) : InertAt j (s.turn i f) := by
  by_cases hij : i = j
  · subst hij
    cases hl : s.legs[i]? with
    | none => simpa [InertAt, Exec.turn, hl] using h
    | some l =>
      obtain ⟨hinert, new, hnew, hquiet⟩ := hf rfl l (h.1 l hl)
      refine ⟨?_, ?_⟩
      · intro l' hl'
        have : f l = l' := by simpa [Exec.turn, hl] using hl'
        exact this ▸ hinert
      · intro status hstatus
        simp only [Exec.turn, hl, Option.map_some, Option.getD_some, hnew, List.drop_left,
          List.mem_append, List.mem_map, Prod.mk.injEq, true_and, exists_eq_right] at hstatus
        exact hstatus.elim (h.2 status) (hquiet status)
  · refine ⟨fun l hl => h.1 l (by rwa [turn_getElem?_ne f hij] at hl), fun status hstatus => ?_⟩
    simp only [Exec.turn, List.mem_append, List.mem_map, Prod.mk.injEq] at hstatus
    rcases hstatus with hstatus | ⟨_, -, hji, -⟩
    · exact h.2 status hstatus
    · exact absurd hji hij

theorem Moves.inertAt {j : Nat} (h : Moves w s s') (h0 : InertAt j s) : InertAt j s' := by
  induction h with
  | refl => exact h0
  | batch _ hl ht ih =>
    unfold InertAt
    rw [hl, ht]
    exact ih
  | prepare i completedLegs _ ih =>
    exact ih.turn fun _ l hl => staysInert_prepareLeg w i completedLegs hl
  | commit i _ ih =>
    refine ih.turn fun _ l hl => ?_
    unfold commitLeg
    rw [if_neg hl.leg]
    exact .refl hl
  | rollback r i _ ih => exact ih.turn fun _ l hl => staysInert_rollbackLeg w r i hl
  | @reload s1 _ ih =>
    refine ⟨fun l hl => ?_, ih.2⟩
    simp only [Exec.reload, List.getElem?_map, Option.map_eq_some_iff] at hl
    obtain ⟨l', hl', rfl⟩ := hl
    have hi := ih.1 l' hl'
    exact ⟨hi.row, hi.row, hi.rowNever, hi.rowNever⟩

end Moves

/-! ## What is asked of an execution -/

/-- Leg `j` names leg `i`. -/
def NamesLeg (legs : List SwapLegDto) (i j : Nat) : Prop :=
  ∃ leg, legs[j]? = some leg ∧ ∃ dep ∈ leg.dependencies.getD [], index? dep.value = some i

/-- Leg `j` takes the output of the earlier leg `i`. -/
def TakesFrom (legs : List SwapLegDto) (i j : Nat) : Prop :=
  i < j ∧ ∃ previous leg, legs[i]? = some previous ∧ legs[j]? = some leg ∧
    hasImplicitDependency leg previous = true

/-- A leg becomes prepared, or executed, only after the legs it depends on. -/
def Ordered (legs : List SwapLegDto) (trace : List (Nat × LegStatus)) : Prop :=
  ∀ pre post j status, trace = pre ++ (j, status) :: post → status = .prepared ∨ status = .executed →
    ∀ i, NamesLeg legs i j ∨ TakesFrom legs i j → (i, status) ∈ pre

/-- Every call succeeds, and what the simulations promise lies within the bounds of the legs. -/
structure Succeeds (w : World) (legs : List BatchLeg) : Prop where
  leg : ∀ i call, w.legFails i call = false
  batch : ∀ call, w.batchFails call = false
  price : ∀ i, (w.price i).isSome = true
  simulate : ∀ i, (w.simulated i).isSome = true
  within : EachLeg legs (expects w)
  invoke : ∀ i, (w.invoked i).isSome = true

/-- The batch is committed with every leg executed, apart from those whose condition did not hold. -/
def Complete (w : World) (legs : List BatchLeg) (s : Exec) : Prop :=
  s.row.status = .committed ∧ ∀ i leg, legs[i]? = some leg →
    ∃ l, s.legs[i]? = some l ∧
      (l.row.status = .executed ∨ skips w i leg = true ∧ l.row.status = .skipped)

section Complete

variable {w : World} {batch : TransactionBatch} {legs : List BatchLeg}

theorem Succeeds.readies (h : Succeeds w legs) (i : Nat) (leg : BatchLeg) :
    readies w i leg = decide (leg.dependencies = []) := by
  simp [Coordinator.readies, h.leg, h.simulate]

theorem Succeeds.commits (h : Succeeds w legs) (i : Nat) : commits w i = true := by
  simp [Coordinator.commits, h.leg, h.invoke]

/-- When everything succeeds, a batch without named dependencies that passes its first check is
complete. -/
theorem complete_of_succeeds (hc : Created batch legs) (h : Succeeds w legs) (hne : legs ≠ [])
    (hcheck : (checkPreExecution batch legs).passed = true)
    (hdeps : ∀ leg ∈ legs, leg.dependencies = []) :
    Complete w legs (executeBatch w batch legs).1 := by
  have hready : EachLeg legs (readies w) := fun i leg hleg => by
    rw [h.readies, hdeps leg (List.mem_of_getElem? hleg)]
    rfl
  have hreach : ReachesCommit w batch legs :=
    ⟨⟨hne, h.batch _, hcheck, h.batch _⟩,
      ⟨h.batch _, hready, h.batch _, h.within, h.batch _, h.batch _⟩, h.batch _, h.batch _⟩
  have hall : Commits w legs := fun i leg _ => by simp [h.commits]
  obtain ⟨s, t, hlegs, -, hfailed, -, hbody⟩ := body_of_reachesCommit hc hreach
  rw [if_pos (hfailed.mpr hall)] at hbody
  obtain ⟨s1, hs1, ⟨hsave, -⟩ | ⟨-, hrow, ⟨haudit, -⟩ | ⟨-, hfin⟩⟩⟩ := finish_cases w t s
  · rw [h.batch] at hsave
    cases hsave
  · rw [h.batch, h.batch] at haudit
    simp at haudit
  · have hfinal : (executeBatch w batch legs).1 = s1 := by
      unfold executeBatch
      rw [hbody.trans hfin]
    rw [hfinal]
    refine ⟨hrow, fun i leg hleg => ⟨commitLeg w i ((LegState.fresh leg).readied w i), ?_, ?_⟩⟩
    · simp [hs1, hlegs, executedLegs, List.getElem?_mapIdx, hleg]
    · have hview := congrArg Prod.fst (commitLeg_view w i leg)
      cases hs : skips w i leg with
      | true =>
        rw [hs] at hview
        exact .inr ⟨rfl, hview⟩
      | false =>
        rw [hs, h.commits] at hview
        exact .inl hview

end Complete

/-! ## The eager order -/

section Eager

variable {w : World} {s : Exec}

/-- What leg `i` writes in its turn. -/
def Exec.writes (s : Exec) (f : Nat → LegState → LegState) (i : Nat) : List (Nat × LegStatus) :=
  ((s.legs[i]?.map fun l => (f i l).saved.drop l.saved.length).getD []).map (Prod.mk i)

theorem turns_trace_eq (f : Nat → LegState → LegState) {order : List Nat} (hn : order.Nodup)
    (s : Exec) : (s.turns f order).trace = s.trace ++ order.flatMap (s.writes f) := by
  unfold Exec.turns
  induction order generalizing s with
  | nil => simp
  | cons i order ih =>
    rw [List.nodup_cons] at hn
    have hrest : order.flatMap ((s.turn i (f i)).writes f) = order.flatMap (s.writes f) := by
      refine List.flatMap_congr fun k hk => ?_
      have hne : i ≠ k := fun h => hn.1 (h ▸ hk)
      simp only [Exec.writes, turn_getElem?_ne _ hne]
    rw [List.foldl_cons, ih hn.2, hrest, List.flatMap_cons, ← List.append_assoc]
    rfl

theorem preparePhase_trace (hu : Untouched s.legs) (hne : s.legs ≠ [])
    (hsave : w.batchFails .savePreparing = false) :
    (preparePhase w s).1.trace =
      s.trace ++ (w.prepareTurns (List.range s.legs.length)).flatMap
        (s.writes fun i => prepareLeg w i []) := by
  have hgraph : buildGraphFromLegs ((s.set .preparing).save.legs.map (·.leg)) =
      .ok ⟨createEmptyGraph s.legs.length, [List.range s.legs.length], List.range s.legs.length⟩ := by
    simpa using buildGraphFromLegs_stored hu.stored (by simpa [List.length_pos_iff] using hne)
  have hlayers := prepareLayers_single w (s.set .preparing).save
  have htrace := turns_trace_eq (fun i => prepareLeg w i [])
    (nodup_of_perm_range (w.prepareTurns_perm (List.range s.legs.length))) (s.set .preparing).save
  unfold preparePhase
  simp only [hsave, Bool.false_eq_true, if_false, hgraph]
  simp only [Exec.save_legs, Exec.set_legs] at hlayers
  rw [hlayers]
  generalize (s.set .preparing).save.turns _ _ = s' at htrace ⊢
  split
  · rename_i s'' hs
    obtain ⟨rfl, -⟩ := Prod.mk.inj hs
    split
    · exact htrace
    · split
      · exact htrace
      · split <;> exact htrace
  · rename_i s'' i is hs
    obtain ⟨rfl, -⟩ := Prod.mk.inj hs
    exact htrace

theorem executeBatch_trace {batch : TransactionBatch} {legs : List BatchLeg}
    (hc : Created batch legs) (hstarts : StartsLegs w batch legs) :
    (w.prepareTurns (List.range legs.length)).flatMap
        ((Exec.start batch legs).writes fun i => prepareLeg w i []) <+:
      (executeBatch w batch legs).1.trace := by
  obtain ⟨hne, haudit, hcheck, hsave⟩ := hstarts
  have hne' : (Exec.start batch legs).legs ≠ [] := fun hnil => hne (List.map_eq_nil_iff.mp hnil)
  have hpre := checkPreExecution_start batch legs
  have htrace := preparePhase_trace (w := w) hc.untouched hne' hsave
  rw [show (Exec.start batch legs).legs.length = legs.length by simp [Exec.start]] at htrace
  rw [show (Exec.start batch legs).trace = [] from rfl, List.nil_append] at htrace
  have hbody : Moves w (preparePhase w (.start batch legs)).1
      (executeBatch.body w (.start batch legs)).1 := by
    unfold executeBatch.body
    rw [hpre, if_neg hne', haudit, hcheck]
    simp only [Bool.not_true, Bool.false_eq_true, if_false]
    split
    · rename_i s hs
      rw [hs]
      exact .refl s
    · rename_i s hs
      rw [hs]
      exact moves_commitPhase s
  rw [← htrace]
  exact (hbody.trans (moves_afterBody batch legs)).trace

theorem writes_prepared {batch : TransactionBatch} {legs : List BatchLeg} {j : Nat} {leg : BatchLeg}
    (hleg : legs[j]? = some leg) (hr : readies w j leg = true) (hs : skips w j leg = false) :
    ((Exec.start batch legs).writes fun i => prepareLeg w i []) j =
      [(j, .preparing), (j, .prepared)] := by
  have hget : (Exec.start batch legs).legs[j]? = some (.fresh leg) := by simp [Exec.start, hleg]
  have hprep : prepareLeg w j [] (.fresh leg) = (LegState.fresh leg).readied w j :=
    prepareLeg_of_readies hr
  have hskip : skips w j (LegState.fresh leg).leg = false := hs
  simp only [Exec.writes, hget, Option.map_some, Option.getD_some, hprep, LegState.readied, hskip,
    Bool.false_eq_true, if_false]
  rfl

theorem prepared_before {batch : TransactionBatch} {legs : List BatchLeg} (hc : Created batch legs)
    (hstarts : StartsLegs w batch legs) (hturns : ∀ layer, w.prepareTurns layer = layer.reverse)
    {i j : Nat} {leg : BatchLeg} (hij : i < j) (hleg : legs[j]? = some leg)
    (hr : readies w j leg = true) (hs : skips w j leg = false) :
    ∃ pre post, (executeBatch w batch legs).1.trace = pre ++ (j, .prepared) :: post ∧
      ∀ status, (i, status) ∉ pre := by
  obtain ⟨hj, -⟩ := List.getElem?_eq_some_iff.mp hleg
  obtain ⟨later, earlier, horder⟩ := List.append_of_mem
    (List.mem_reverse.mpr (List.mem_range.mpr hj) : j ∈ (List.range legs.length).reverse)
  have hlater : ∀ k ∈ later, j < k := by
    have hsorted : (List.range legs.length).reverse.Pairwise (· > ·) :=
      List.pairwise_reverse.mpr List.pairwise_lt_range
    rw [horder, List.pairwise_append] at hsorted
    intro k hk
    exact hsorted.2.2 k hk j (by simp)
  obtain ⟨rest, hrest⟩ := executeBatch_trace hc hstarts
  rw [hturns, horder, List.flatMap_append, List.flatMap_cons, writes_prepared hleg hr hs] at hrest
  refine ⟨later.flatMap ((Exec.start batch legs).writes fun i => prepareLeg w i []) ++ [(j, .preparing)],
    earlier.flatMap ((Exec.start batch legs).writes fun i => prepareLeg w i []) ++ rest, ?_, ?_⟩
  · rw [← hrest]
    simp only [List.append_assoc, List.cons_append, List.nil_append]
  · intro status hmem
    rcases List.mem_append.mp hmem with hmem | hmem
    · obtain ⟨k, hk, hmem⟩ := List.mem_flatMap.mp hmem
      obtain ⟨status', -, heq⟩ := List.mem_map.mp hmem
      have := hlater k hk
      have : k = i := congrArg Prod.fst heq
      omega
    · have : i = j := congrArg Prod.fst (List.mem_singleton.mp hmem)
      omega

end Eager

/-- Everything succeeds, the contracts answer with the given price, and the legs get through in the
reverse order. -/
def eager (price : ℚ) : World :=
  { calm with
    price := fun _ => some (some price)
    prepareTurns := List.reverse
    prepareTurns_perm := fun layer => List.reverse_perm layer }

section Main

variable {id : Nat → UuidText} {dto : CreateBatchDto} {c : CreatedBatch}

theorem succeeds_eager {batch : TransactionBatch} {legs : List BatchLeg} (hc : Created batch legs)
    (price : ℚ) : Succeeds (eager price) legs where
  leg _ _ := rfl
  batch _ := rfl
  price _ := rfl
  simulate _ := rfl
  within i leg hleg := by
    have hnone := (hc.output leg (List.mem_of_getElem? hleg)).1
    have hsim : (eager price).simulated i = some none := rfl
    simp [expects, hsim, hnone, BatchLeg.outOfBounds]
  invoke _ := rfl

theorem exists_price {leg : BatchLeg} (h : ¬ leg.NeverMet) (j : Nat) :
    ∃ price, skips (eager price) j leg = false := by
  unfold skips
  cases hc : leg.condition with
  | none => exact ⟨0, rfl⟩
  | some x =>
    obtain ⟨type, expression⟩ := x
    cases expression with
    | none => exact absurd ⟨type, hc⟩ h
    | some threshold =>
      cases type with
      | priceGt => exact ⟨threshold + 1, by simp [evaluateLegCondition, eager, evaluateCondition]⟩
      | priceLt => exact ⟨threshold - 1, by simp [evaluateLegCondition, eager, evaluateCondition]⟩
      | priceGte => exact ⟨threshold, by simp [evaluateLegCondition, eager, evaluateCondition]⟩
      | priceLte => exact ⟨threshold, by simp [evaluateLegCondition, eager, evaluateCondition]⟩
      | amountGt => exact ⟨threshold + 1, by simp [evaluateLegCondition, eager, evaluateCondition]⟩
      | amountLt => exact ⟨threshold - 1, by simp [evaluateLegCondition, eager, evaluateCondition]⟩

/-- The stored leg of a leg of the request. -/
theorem stored_leg (h : createBatch id dto = .ok c) (i : Nat) :
    c.legs[i]? = dto.legs[i]?.map fun leg => createBatch.legRow id leg i := by
  rw [(createBatch_ok h).2.1, List.getElem?_map, List.getElem?_zipIdx, Option.map_map]
  cases dto.legs[i]? with
  | none => rfl
  | some leg => simp

theorem dependencies_nil_iff (h : createBatch id dto = .ok c) :
    (∀ leg ∈ c.legs, leg.dependencies = []) ↔ ∀ leg ∈ dto.legs, leg.dependencies.getD [] = [] := by
  constructor
  · intro hall leg hleg
    obtain ⟨i, hi⟩ := List.mem_iff_getElem?.mp hleg
    have hstored : c.legs[i]? = some (createBatch.legRow id leg i) := by
      rw [stored_leg h, hi]
      rfl
    exact List.map_eq_nil_iff.mp (hall _ (List.mem_of_getElem? hstored))
  · intro hall leg hleg
    obtain ⟨i, hi⟩ := List.mem_iff_getElem?.mp hleg
    rw [stored_leg h, Option.map_eq_some_iff] at hi
    obtain ⟨leg', hi, rfl⟩ := hi
    exact List.map_eq_nil_iff.mpr (hall leg' (List.mem_of_getElem? hi))

theorem dependencies_nil_of_committed (hc : Created c.batch c.legs) {w : World} (hw : Succeeds w c.legs)
    (h : Complete w c.legs (executeBatch w c.batch c.legs).1) :
    (checkPreExecution c.batch c.legs).passed = true ∧ ∀ leg ∈ c.legs, leg.dependencies = [] := by
  obtain ⟨⟨⟨-, -, hcheck, -⟩, hprep, -⟩, -⟩ := executeBatch_committed hc h.1
  refine ⟨hcheck, fun leg hleg => ?_⟩
  obtain ⟨i, hi⟩ := List.mem_iff_getElem?.mp hleg
  have hr := hprep.2.1 i leg hi
  rw [hw.readies] at hr
  exact of_decide_eq_true hr

theorem neverMet_of_ordered (hc : Created c.batch c.legs) (hne : c.legs ≠ [])
    (hcheck : (checkPreExecution c.batch c.legs).passed = true)
    (hdeps : ∀ leg ∈ c.legs, leg.dependencies = [])
    (hordered : ∀ w, Ordered dto.legs (executeBatch w c.batch c.legs).1.trace) {i j : Nat}
    {leg : BatchLeg} (htakes : TakesFrom dto.legs i j) (hleg : c.legs[j]? = some leg) :
    leg.NeverMet := by
  by_contra hmet
  obtain ⟨price, hskip⟩ := exists_price hmet j
  have hready : readies (eager price) j leg = true := by
    rw [(succeeds_eager hc price).readies, hdeps leg (List.mem_of_getElem? hleg)]
    rfl
  obtain ⟨pre, post, htrace, hno⟩ := prepared_before (w := eager price) hc
    ⟨hne, rfl, hcheck, rfl⟩ (fun _ => rfl) htakes.1 hleg hready hskip
  exact hno _ (hordered (eager price) pre post j .prepared htrace (.inl rfl) i (.inr htakes))

theorem inertAt_start {j : Nat} {leg : SwapLegDto}
    (hstored : c.legs[j]? = some (createBatch.legRow id leg j))
    (hnever : (createBatch.legRow id leg j).NeverMet) : InertAt j (.start c.batch c.legs) := by
  refine ⟨fun l hl => ?_, by simp [Exec.start]⟩
  simp only [Exec.start, List.getElem?_map, hstored, Option.map_some, Option.some.injEq] at hl
  subst hl
  refine ⟨?_, ?_, hnever, hnever⟩
  · intro h
    cases h
  · intro h
    cases h

/-- For every accepted batch: whatever the simulations and invocations answer, legs are prepared and
executed after the legs they depend on, and the batch gets through when everything succeeds, exactly
when the batch passes the first check, no leg names another one and no leg that can ever be prepared
takes the output of an earlier one. -/
theorem ordered_complete_iff (h : createBatch id dto = .ok c) :
    ((∀ w, Ordered dto.legs (executeBatch w c.batch c.legs).1.trace) ∧
      ∀ w, Succeeds w c.legs → Complete w c.legs (executeBatch w c.batch c.legs).1) ↔
    (checkPreExecution c.batch c.legs).passed = true ∧
      (∀ leg ∈ dto.legs, leg.dependencies.getD [] = []) ∧
      ∀ i j leg, TakesFrom dto.legs i j → c.legs[j]? = some leg → leg.NeverMet := by
  have hcreated : Created c.batch c.legs := NotExecuted.created ⟨id, dto, c, h, rfl, .inl rfl⟩
  have hne : c.legs ≠ [] := by
    have hpos := (createBatch_ok h).1
    rw [← (stored_of_createBatch h).2] at hpos
    exact List.length_pos_iff.mp hpos
  constructor
  · rintro ⟨hordered, hcomplete⟩
    have heager := succeeds_eager hcreated 0
    obtain ⟨hcheck, hdeps⟩ := dependencies_nil_of_committed hcreated heager (hcomplete _ heager)
    exact ⟨hcheck, (dependencies_nil_iff h).mp hdeps,
      fun _ _ _ => neverMet_of_ordered hcreated hne hcheck hdeps hordered⟩
  · rintro ⟨hcheck, hdeps, htakes⟩
    refine ⟨?_, fun w hw => complete_of_succeeds hcreated hw hne hcheck ((dependencies_nil_iff h).mpr hdeps)⟩
    intro w pre post j status htrace hstatus i hdep
    exfalso
    rcases hdep with ⟨leg, hleg, dep, hdep, -⟩ | hdep
    · rw [hdeps leg (List.mem_of_getElem? hleg)] at hdep
      cases hdep
    · -- the leg can never be prepared, and the trace says that it was
      have hdep' := hdep
      obtain ⟨-, previous, leg, -, hleg, -⟩ := hdep'
      have hstored : c.legs[j]? = some (createBatch.legRow id leg j) := by
        rw [stored_leg h, hleg]
        rfl
      have hstart := inertAt_start hstored (htakes i j _ hdep hstored)
      have hquiet := ((moves_executeBatch c.batch c.legs).inertAt hstart).2 status
        (by rw [htrace]; simp)
      rcases hstatus with rfl | rfl
      · exact hquiet.1 rfl
      · exact hquiet.2 rfl

end Main

/-- The second leg swaps what the first one yields, and names it. Everything succeeds, and the batch
is rolled back. -/
theorem chained_batch_rolled_back :
    ∃ c, createBatch plainId ⟨[plainLeg "USD" "EUR" [], plainLeg "EUR" "JPY" [0]]⟩ = .ok c ∧
      (executeBatch (eager 1) c.batch c.legs).1.row.status = .rolledBack ∧
      ¬ ∀ w, Succeeds w c.legs → Complete w c.legs (executeBatch w c.batch c.legs).1 := by
  obtain ⟨c, hc, hrow⟩ : ∃ c,
      createBatch plainId ⟨[plainLeg "USD" "EUR" [], plainLeg "EUR" "JPY" [0]]⟩ = .ok c ∧
      (executeBatch (eager 1) c.batch c.legs).1.row.status = .rolledBack := ⟨_, rfl, by decide +kernel⟩
  refine ⟨c, hc, hrow, fun h => ?_⟩
  have hcreated : Created c.batch c.legs := NotExecuted.created ⟨plainId, _, c, hc, rfl, .inl rfl⟩
  have hcommitted := (h _ (succeeds_eager hcreated 1)).1
  rw [hrow] at hcommitted
  cases hcommitted

theorem separate_legs_complete :
    ∃ c, createBatch plainId twoLegs = .ok c ∧
      (∀ w, Ordered twoLegs.legs (executeBatch w c.batch c.legs).1.trace) ∧
      ∀ w, Succeeds w c.legs → Complete w c.legs (executeBatch w c.batch c.legs).1 := by
  obtain ⟨c, hc, hcheck⟩ : ∃ c, createBatch plainId twoLegs = .ok c ∧
      (checkPreExecution c.batch c.legs).passed = true := ⟨_, rfl, by decide +kernel⟩
  refine ⟨c, hc, (ordered_complete_iff hc).mpr ⟨hcheck, ?_, ?_⟩⟩
  · intro leg hleg
    simp only [twoLegs, List.mem_cons, List.not_mem_nil, or_false] at hleg
    rcases hleg with rfl | rfl <;> rfl
  · rintro i j leg ⟨hij, previous, leg', hi, hj, hdep⟩ -
    obtain ⟨rfl, rfl⟩ : i = 0 ∧ j = 1 := by
      have hj : j < 2 := (List.getElem?_eq_some_iff.mp hj).1
      omega
    cases hi
    cases hj
    exact absurd hdep (by decide)

end Coordinator
end TradeCore
