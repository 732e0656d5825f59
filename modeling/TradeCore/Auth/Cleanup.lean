import TradeCore.Auth.Refresh

/-!
# TradeCore.Auth.Cleanup

`cleanupExpiredCredentials` beside the calls of the sessions. It deletes the tokens that nobody can
use any more, a statement for each table, at any moment between the steps of the calls.

A call that has read a token saves it as a whole, and a row that was deleted in between is inserted
again, without the digest, which its query does not select. Nevertheless no call can tell whether rows
are deleted: `cleanup_invisible`.
-/

namespace TradeCore
namespace Auth
namespace Refresh

open Lib

/-- Seven days. -/
def revokedTokenRetentionMs : Int := 7 * 24 * 60 * 60 * 1000

/-- The rows that `cleanupExpiredCredentials` deletes. -/
def RefreshToken.purgeable (now : Time) (t : RefreshToken) : Bool :=
  t.expiresAt ≤ now ∨ t.isRevoked ∧ t.revokedAt.any (· ≤ now - revokedTokenRetentionMs)

def PasswordResetToken.purgeable (now : Time) (t : PasswordResetToken) : Bool :=
  t.expiresAt ≤ now ∨ t.isUsed

def RefreshTokens.delete (ts : RefreshTokens) (now : Time) : RefreshTokens where
  rows := ts.rows.filter fun t => !t.purgeable now
  ids := ts.ids.sublist (List.filter_sublist.map _)

def deleteTokens (now : Time) (db : SessionDb) : SessionDb :=
  { db with tokens := db.tokens.delete now }

def deleteResets (now : Time) (db : SessionDb) : SessionDb :=
  { db with resets := db.resets.filter fun t => !t.purgeable now }

/-- `save` of a token: an UPDATE of its row, or an INSERT when there is none. -/
def saveRevoked (m : RefreshToken) (now : Time) (tokens : RefreshTokens) : RefreshTokens :=
  if h : m.id ∉ tokens.rows.map RefreshToken.id then
    tokens.add { m with lookupHash := none, isRevoked := true, revokedAt := some now } h
  else tokens.revokeWhere (fun t => t.id = m.id) now

def saveUsed (m : PasswordResetToken) (resets : List PasswordResetToken) : List PasswordResetToken :=
  if m.id ∈ resets.map PasswordResetToken.id then
    resets.map fun t => if t.id = m.id then { t with isUsed := true } else t
  else resets ++ [{ m with lookupHash := none, isUsed := true }]

/-- The steps of the calls where rows may have been deleted. -/
def advanceSaving (cfg : Settings) (env : SessionEnv) (call : SessionCall) (db : SessionDb) :
    SessionDb × SessionTask :=
  match call with
  | .revoke m user ctx =>
    if env.fault then (db, .done (.failed databaseError))
    else ({ db with tokens := saveRevoked m env.now db.tokens }, .running (.audit m user ctx))
  | .markUsed m =>
    if env.fault then (db, .done (.failed databaseError))
    else ({ db with resets := saveUsed m db.resets }, .running (.revokeAll m))
  | call => advance cfg env call db

def savingProc (cfg : Settings) :
    Proc SessionDb SessionEnv SessionOp SessionCall SessionAnswer := ⟨.start, advanceSaving cfg⟩

inductive CleanupAct where
  | call (a : Act SessionEnv SessionOp)
  | deleteTokens (now : Time)
  | deleteResets (now : Time)

abbrev Sessions := Conf SessionDb SessionCall SessionAnswer

def cleanupStep (cfg : Settings) (c : Sessions) : CleanupAct → Sessions
  | .call a => (savingProc cfg).step c a
  | .deleteTokens now => { c with shared := deleteTokens now c.shared }
  | .deleteResets now => { c with shared := deleteResets now c.shared }

def callsOf (acts : List CleanupAct) : List (Act SessionEnv SessionOp) :=
  acts.filterMap fun
    | .call a => some a
    | _ => none

/-- The clock is not set back: no step comes at an earlier time than a step or a deletion before it. -/
def Clocked : Time → List CleanupAct → Prop
  | _, [] => True
  | clock, .call (.spawn _) :: acts => Clocked clock acts
  | clock, .call (.sched _ env) :: acts => clock ≤ env.now ∧ Clocked env.now acts
  | clock, .deleteTokens now :: acts | clock, .deleteResets now :: acts => Clocked (max clock now) acts

/-- A token that is issued has an id and a digest of its own. -/
def DrawsFresh (cfg : Settings) (env : SessionEnv) (call : SessionCall) (db : SessionDb) : Prop :=
  match call with
  | .start (.issueTokenPair _ _) | .issue _ _ _ =>
    env.id ∉ db.tokens.rows.map RefreshToken.id ∧
      some (cfg.digest env.raw) ∉ db.tokens.rows.map RefreshToken.lookupHash
  | _ => True

/-! ## Tables that answer alike -/

def RefreshToken.live (clock : Time) (t : RefreshToken) : Bool := t.isRevoked = false ∧ clock < t.expiresAt

def PasswordResetToken.live (clock : Time) (t : PasswordResetToken) : Bool :=
  t.isUsed = false ∧ clock < t.expiresAt

/-- Every key of a table with rows deleted is one of the table without. -/
def KeysWithin (tokens tokens' : RefreshTokens) : Prop :=
  ∀ t ∈ tokens.rows, t.id ∈ tokens'.rows.map RefreshToken.id ∧
    ∀ h, t.lookupHash = some h → some h ∈ tokens'.rows.map RefreshToken.lookupHash

/-- The tables with rows deleted and the ones without: the same users and live rows, and no keys of its
own. -/
structure Alike (clock : Time) (db db' : SessionDb) : Prop where
  users : db.users = db'.users
  tokens : db.tokens.rows.filter (RefreshToken.live clock) = db'.tokens.rows.filter (RefreshToken.live clock)
  resets : db.resets.filter (PasswordResetToken.live clock) = db'.resets.filter (PasswordResetToken.live clock)
  keys : KeysWithin db.tokens db'.tokens

section Alike

variable {clock : Time} {db db' : SessionDb}

theorem Alike.mono (h : Alike clock db db') {clock' : Time} (hle : clock ≤ clock') :
    Alike clock' db db' where
  users := h.users
  tokens := by
    have himp : ∀ t, RefreshToken.live clock' t = true → RefreshToken.live clock t = true := by
      intro t ht
      simp only [RefreshToken.live, decide_eq_true_eq] at ht ⊢
      exact ⟨ht.1, Int.lt_of_le_of_lt hle ht.2⟩
    rw [← filter_filter_of_imp himp, h.tokens, filter_filter_of_imp himp]
  resets := by
    have himp : ∀ t, PasswordResetToken.live clock' t = true → PasswordResetToken.live clock t = true := by
      intro t ht
      simp only [PasswordResetToken.live, decide_eq_true_eq] at ht ⊢
      exact ⟨ht.1, Int.lt_of_le_of_lt hle ht.2⟩
    rw [← filter_filter_of_imp himp, h.resets, filter_filter_of_imp himp]
  keys := h.keys

theorem Alike.refl (clock : Time) (db : SessionDb) : Alike clock db db where
  users := rfl
  tokens := rfl
  resets := rfl
  keys t ht := ⟨List.mem_map_of_mem ht, fun _ hh => List.mem_map.mpr ⟨t, ht, hh⟩⟩

theorem filter_revokeWhere (ts : RefreshTokens) (p : RefreshToken → Bool) (now clock : Time) :
    (ts.revokeWhere p now).rows.filter (RefreshToken.live clock) =
      (ts.rows.filter (RefreshToken.live clock)).filter fun t => !p t := by
  refine filter_update (fun t ht => ?_) (fun t ht => ?_) ts.rows
  · simp [RefreshTokens.stamp, ht, RefreshToken.live]
  · simp [RefreshTokens.stamp, ht]

theorem stamp_lookupHash (p : RefreshToken → Bool) (now : Time) (t : RefreshToken) :
    (RefreshTokens.stamp p now t).lookupHash = t.lookupHash := by
  unfold RefreshTokens.stamp
  split <;> rfl

theorem revokeWhere_ids (ts : RefreshTokens) (p : RefreshToken → Bool) (now : Time) :
    (ts.revokeWhere p now).rows.map RefreshToken.id = ts.rows.map RefreshToken.id := by
  simp [RefreshTokens.revokeWhere]

theorem revokeWhere_hashes (ts : RefreshTokens) (p : RefreshToken → Bool) (now : Time) :
    (ts.revokeWhere p now).rows.map RefreshToken.lookupHash = ts.rows.map RefreshToken.lookupHash := by
  simp [RefreshTokens.revokeWhere, stamp_lookupHash]

theorem KeysWithin.revokeWhere {tokens tokens' : RefreshTokens} (h : KeysWithin tokens tokens')
    (p : RefreshToken → Bool) (now : Time) :
    KeysWithin (tokens.revokeWhere p now) (tokens'.revokeWhere p now) := by
  intro t ht
  obtain ⟨old, hold, rfl⟩ := List.mem_map.mp ht
  rw [revokeWhere_ids, revokeWhere_hashes, RefreshTokens.stamp_id, stamp_lookupHash]
  exact h old hold

theorem filter_saveRevoked (m : RefreshToken) (now clock : Time) (tokens : RefreshTokens) :
    (saveRevoked m now tokens).rows.filter (RefreshToken.live clock) =
      (tokens.rows.filter (RefreshToken.live clock)).filter fun t => !decide (t.id = m.id) := by
  unfold saveRevoked
  split
  · rename_i hm
    -- the row that is inserted again is not live, and no other has its id
    have hnone : ∀ t ∈ tokens.rows.filter (RefreshToken.live clock), (!decide (t.id = m.id)) = true := by
      intro t ht
      have : t.id ≠ m.id := fun h => hm (h ▸ List.mem_map_of_mem (List.mem_of_mem_filter ht))
      simp [this]
    rw [List.filter_eq_self.mpr hnone]
    simp [RefreshTokens.add, List.filter_append, RefreshToken.live]
  · exact filter_revokeWhere ..

theorem KeysWithin.save {tokens tokens' : RefreshTokens} (h : KeysWithin tokens tokens')
    {m : RefreshToken} (hm : m.id ∈ tokens'.rows.map RefreshToken.id) (now : Time) :
    KeysWithin (saveRevoked m now tokens) (tokens'.revokeWhere (fun t => t.id = m.id) now) := by
  unfold saveRevoked
  split
  · intro t ht
    rw [revokeWhere_ids, revokeWhere_hashes]
    rcases List.mem_append.mp ht with ht | ht
    · exact h t ht
    · rw [List.mem_singleton.mp ht]
      exact ⟨hm, fun _ h => by cases h⟩
  · exact h.revokeWhere _ now

theorem filter_markUsed (m : PasswordResetToken) (clock : Time) (resets : List PasswordResetToken) :
    (resets.map fun t => if t.id = m.id then { t with isUsed := true } else t).filter
        (PasswordResetToken.live clock) =
      (resets.filter (PasswordResetToken.live clock)).filter fun t => !decide (t.id = m.id) := by
  refine filter_update (fun t ht => ?_) (fun t ht => ?_) resets
  · simp only [decide_eq_true_eq] at ht
    simp [ht, PasswordResetToken.live]
  · simp only [decide_eq_false_iff_not] at ht
    simp [ht]

theorem filter_saveUsed (m : PasswordResetToken) (clock : Time) (resets : List PasswordResetToken) :
    (saveUsed m resets).filter (PasswordResetToken.live clock) =
      (resets.filter (PasswordResetToken.live clock)).filter fun t => !decide (t.id = m.id) := by
  unfold saveUsed
  split
  · exact filter_markUsed m clock resets
  · rename_i hm
    have hnone : ∀ t ∈ resets.filter (PasswordResetToken.live clock), (!decide (t.id = m.id)) = true := by
      intro t ht
      have : t.id ≠ m.id := fun h => hm (h ▸ List.mem_map_of_mem (List.mem_of_mem_filter ht))
      simp [this]
    rw [List.filter_eq_self.mpr hnone]
    simp [List.filter_append, PasswordResetToken.live]

end Alike

/-! ## A step with the rows deleted and one without -/

section Step

variable {cfg : Settings} {env : SessionEnv} {db db' : SessionDb}

theorem issueTokenPair_alike (h : Alike env.now db db') (exchanged : Option Uuid) (user : User)
    (ctx : RequestContext) (hid : env.id ∉ db'.tokens.rows.map RefreshToken.id)
    (hraw : some (cfg.digest env.raw) ∉ db'.tokens.rows.map RefreshToken.lookupHash) :
    Alike env.now (issueTokenPair cfg env exchanged user ctx db).1
        (issueTokenPair cfg env exchanged user ctx db').1 ∧
      (issueTokenPair cfg env exchanged user ctx db).2 =
        (issueTokenPair cfg env exchanged user ctx db').2 := by
  have hid' : env.id ∉ db.tokens.rows.map RefreshToken.id := by
    intro hmem
    obtain ⟨t, ht, hteq⟩ := List.mem_map.mp hmem
    exact hid (hteq ▸ (h.keys t ht).1)
  have hraw' : some (cfg.digest env.raw) ∉ db.tokens.rows.map RefreshToken.lookupHash := by
    intro hmem
    obtain ⟨t, ht, hteq⟩ := List.mem_map.mp hmem
    exact hraw ((h.keys t ht).2 _ hteq)
  simp only [issueTokenPair, hid, hid', hraw, hraw', not_false_eq_true, dif_pos, or_false]
  split
  · exact ⟨h, rfl⟩
  · refine ⟨⟨h.users, ?_, h.resets, ?_⟩, rfl⟩
    · simp only [RefreshTokens.add, List.filter_append, h.tokens]
    · intro t ht
      simp only [RefreshTokens.add, List.map_append, List.mem_append] at ht ⊢
      rcases ht with ht | ht
      · exact ⟨.inl (h.keys t ht).1, fun x hx => .inl ((h.keys t ht).2 x hx)⟩
      · rw [List.mem_singleton.mp ht]
        exact ⟨.inr (by simp), fun x hx => .inr (by simp [← hx])⟩

theorem revokeAllOf_alike (h : Alike env.now db db') (userId : Uuid) :
    Alike env.now (revokeAllOf userId env.now db) (revokeAllOf userId env.now db') where
  users := h.users
  tokens := by
    simp only [revokeAllOf]
    rw [filter_revokeWhere, filter_revokeWhere, h.tokens]
  resets := h.resets
  keys := h.keys.revokeWhere _ _

theorem live_alike (h : Alike env.now db db') (lookupHash : String) :
    db.tokens.live lookupHash env.now = db'.tokens.live lookupHash env.now := by
  refine find?_of_live h.tokens fun t ht => ?_
  simp only [decide_eq_true_eq] at ht
  simp [RefreshToken.live, ht.2]

theorem advance_alike (h : Alike env.now db db') (call : SessionCall)
    (hknows : call.Knows db'.tokens) (hdraws : DrawsFresh cfg env call db') :
    Alike env.now (advanceSaving cfg env call db).1 (advance cfg env call db').1 ∧
      (advanceSaving cfg env call db).2 = (advance cfg env call db').2 := by
  cases call with
  | start op =>
    cases op with
    | issueTokenPair user ctx => exact issueTokenPair_alike h none user ctx hdraws.1 hdraws.2
    | refreshAccessToken raw ctx =>
      simp only [advanceSaving, advance, live_alike h, h.users]
      repeat' split
      all_goals exact ⟨h, rfl⟩
    | logoutAll userId =>
      simp only [advanceSaving, advance]
      split
      · exact ⟨h, rfl⟩
      · exact ⟨revokeAllOf_alike h userId, rfl⟩
    | confirmPasswordReset raw newPassword =>
      have hfind : (db.resets.find? fun t => t.lookupHash = some (cfg.digest raw) ∧ t.isUsed = false ∧
          env.now < t.expiresAt) = db'.resets.find? fun t => t.lookupHash = some (cfg.digest raw) ∧
          t.isUsed = false ∧ env.now < t.expiresAt := by
        refine find?_of_live h.resets fun t ht => ?_
        simp only [decide_eq_true_eq] at ht
        simp [PasswordResetToken.live, ht.2]
      simp only [advanceSaving, advance, hfind, h.users]
      repeat' split
      all_goals exact ⟨h, rfl⟩
  | revoke m user ctx =>
    obtain ⟨-, row, hrow, hid, -⟩ := hknows
    simp only [advanceSaving, advance]
    split
    · exact ⟨h, rfl⟩
    · refine ⟨⟨h.users, ?_, h.resets, h.keys.save (hid ▸ List.mem_map_of_mem hrow) _⟩, rfl⟩
      rw [filter_saveRevoked, filter_revokeWhere, h.tokens]
  | audit m user ctx => exact ⟨h, rfl⟩
  | issue p user ctx => exact issueTokenPair_alike h (some p) user ctx hdraws.1 hdraws.2
  | updatePassword m newPassword =>
    simp only [advanceSaving, advance]
    split
    · exact ⟨h, rfl⟩
    · exact ⟨⟨by rw [h.users], h.tokens, h.resets, h.keys⟩, rfl⟩
  | markUsed m =>
    simp only [advanceSaving, advance]
    split
    · exact ⟨h, rfl⟩
    · refine ⟨⟨h.users, h.tokens, ?_, h.keys⟩, rfl⟩
      rw [filter_saveUsed, filter_markUsed, h.resets]
  | revokeAll m =>
    simp only [advanceSaving, advance]
    split
    · exact ⟨h, rfl⟩
    · exact ⟨revokeAllOf_alike h m.userId, rfl⟩
  | auditLogout userId reset => cases reset <;> exact ⟨h, rfl⟩
  | auditReset userId => exact ⟨h, rfl⟩

end Step

section Deletion

variable {clock : Time} {db db' : SessionDb}

theorem deleteTokens_alike (h : Alike clock db db') (now : Time) :
    Alike (max clock now) (deleteTokens now db) db' where
  users := h.users
  tokens := by
    rw [← (h.mono (Int.le_max_left clock now)).tokens]
    refine filter_filter_of_imp (fun t ht => ?_) db.tokens.rows
    simp only [RefreshToken.live, decide_eq_true_eq, Int.max_lt] at ht
    simp [RefreshToken.purgeable, ht.1, ht.2.2]
  resets := (h.mono (Int.le_max_left clock now)).resets
  keys t ht := h.keys t (List.mem_of_mem_filter ht)

theorem deleteResets_alike (h : Alike clock db db') (now : Time) :
    Alike (max clock now) (deleteResets now db) db' where
  users := h.users
  tokens := (h.mono (Int.le_max_left clock now)).tokens
  resets := by
    rw [← (h.mono (Int.le_max_left clock now)).resets]
    refine filter_filter_of_imp (fun t ht => ?_) db.resets
    simp only [PasswordResetToken.live, decide_eq_true_eq, Int.max_lt] at ht
    simp [PasswordResetToken.purgeable, ht.1, ht.2.2]
  keys := h.keys

end Deletion

/-! ## No call can tell -/

/-- A run with deletions and the run of its calls alone. -/
structure Shadows (clock : Time) (c c' : Sessions) : Prop where
  tasks : c.tasks = c'.tasks
  alike : Alike clock c.shared c'.shared
  knows : AllRunning (SessionCall.Knows c'.shared.tokens) c'.tasks

theorem Shadows.call {cfg : Settings} {clock : Time} {c c' : Sessions} (h : Shadows clock c c')
    (a : Act SessionEnv SessionOp) (hclock : ∀ i env, a = .sched i env → clock ≤ env.now)
    (hdraws : Meets (fun _ => True) (fun env call db _ => DrawsFresh cfg env call db) c' a) :
    Shadows (match a with | .spawn _ => clock | .sched _ env => env.now) ((savingProc cfg).step c a)
      ((sessionProc cfg).step c' a) := by
  cases a with
  | spawn op =>
    exact ⟨by simp [Proc.step, h.tasks, savingProc, sessionProc], h.alike, h.knows.spawn trivial⟩
  | sched i env =>
    have halike := h.alike.mono (hclock i env rfl)
    cases hi : c'.tasks[i]? with
    | none =>
      simp only [Proc.step, h.tasks, hi]
      exact ⟨h.tasks, halike, h.knows⟩
    | some task =>
      cases task with
      | done r =>
        simp only [Proc.step, h.tasks, hi]
        exact ⟨h.tasks, halike, h.knows⟩
      | running call =>
        have hknows := h.knows call (List.mem_of_getElem? hi)
        obtain ⟨hshared, htask⟩ := advance_alike halike call hknows (hdraws call hi)
        simp only [Proc.step, h.tasks, hi]
        refine ⟨by simp only [savingProc, sessionProc, htask], hshared, ?_⟩
        obtain ⟨pre, post, hpre, hset⟩ := split_of_getElem? hi
        rw [hset]
        exact (advance_effect cfg env call c'.shared).knows (hpre ▸ h.knows)

theorem shadows_run {cfg : Settings} {clock : Time} {c c' : Sessions} (h : Shadows clock c c')
    (acts : List CleanupAct) (hclock : Clocked clock acts)
    (hdraws : Along (sessionProc cfg).step
      (Meets (fun _ => True) fun env call db _ => DrawsFresh cfg env call db) c' (callsOf acts)) :
    ∃ clock', Shadows clock' (run (cleanupStep cfg) c acts)
      (run (sessionProc cfg).step c' (callsOf acts)) := by
  induction acts generalizing clock c c' with
  | nil => exact ⟨clock, h⟩
  | cons act acts ih =>
    cases act with
    | call a =>
      refine ih (h.call a ?_ hdraws.1) ?_ hdraws.2
      · rintro i env rfl
        exact hclock.1
      · cases a with
        | spawn op => exact hclock
        | sched i env => exact hclock.2
    | deleteTokens now => exact ih ⟨h.tasks, deleteTokens_alike h.alike now, h.knows⟩ hclock hdraws
    | deleteResets now => exact ih ⟨h.tasks, deleteResets_alike h.alike now, h.knows⟩ hclock hdraws

/-- Wherever the deletions fall between the steps of the calls, and whatever they delete while a call
holds a row that it has read, every call stands and ends as it would without them. -/
theorem cleanup_invisible (cfg : Settings) (db : SessionDb) (clock : Time) (acts : List CleanupAct)
    (hclock : Clocked clock acts)
    (hdraws : Along (sessionProc cfg).step
      (Meets (fun _ => True) fun env call db _ => DrawsFresh cfg env call db) (Conf.init db)
      (callsOf acts)) :
    (run (cleanupStep cfg) (Conf.init db) acts).tasks =
      (run (sessionProc cfg).step (Conf.init db) (callsOf acts)).tasks := by
  obtain ⟨clock', h⟩ := shadows_run ⟨rfl, Alike.refl clock db, .nil⟩ acts hclock hdraws
  exact h.tasks

instance Clocked.decidable : ∀ (clock : Time) (acts : List CleanupAct), Decidable (Clocked clock acts)
  | _, [] => .isTrue trivial
  | clock, .call (.spawn _) :: acts => Clocked.decidable clock acts
  | clock, .call (.sched _ env) :: acts =>
    @instDecidableAnd _ _ (inferInstanceAs (Decidable (clock ≤ env.now))) (Clocked.decidable env.now acts)
  | clock, .deleteTokens now :: acts | clock, .deleteResets now :: acts =>
    Clocked.decidable (max clock now) acts

instance DrawsFresh.decidable (cfg : Settings) (env : SessionEnv) (call : SessionCall)
    (db : SessionDb) : Decidable (DrawsFresh cfg env call db) :=
  match call with
  | .start (.issueTokenPair _ _) | .issue _ _ _ =>
    inferInstanceAs (Decidable (env.id ∉ db.tokens.rows.map RefreshToken.id ∧
      some (cfg.digest env.raw) ∉ db.tokens.rows.map RefreshToken.lookupHash))
  | .start (.refreshAccessToken _ _) | .start (.confirmPasswordReset _ _) | .start (.logoutAll _) =>
    .isTrue trivial
  | .revoke .. | .audit .. | .updatePassword .. | .markUsed _ | .revokeAll _ => .isTrue trivial
  | .auditLogout .. | .auditReset _ => .isTrue trivial

def readFirst : List (Act SessionEnv SessionOp) :=
  login ++ [.spawn (.refreshAccessToken "first" noContext), .sched 1 plain]

def later (n : Nat) (raw : String) : SessionEnv := ⟨2592000000, false, n, raw, "salt"⟩

def saveLast : List (Act SessionEnv SessionOp) :=
  [.sched 1 (later 0 ""), .sched 1 (later 0 ""), .sched 1 (later 2 "second"),
    .spawn (.refreshAccessToken "first" noContext), .sched 2 (later 0 "")]

/-- The token expires and is deleted between the query of a refresh and its save. -/
def deletedBetween : List CleanupAct :=
  readFirst.map .call ++ .deleteTokens 2592000000 :: saveLast.map .call

theorem cleanup_invisible_deletedBetween :
    (run (cleanupStep settings) (Conf.init sessions) deletedBetween).shared.tokens.rows.map
        RefreshToken.lookupHash = [none, some "hmac:second"] ∧
      (run (cleanupStep settings) (Conf.init sessions) deletedBetween).tasks =
        (run (sessionProc settings).step (Conf.init sessions) (callsOf deletedBetween)).tasks :=
  ⟨by decide +kernel,
    cleanup_invisible settings sessions 0 deletedBetween (by decide +kernel) (by decide +kernel)⟩

end Refresh
end Auth
end TradeCore
