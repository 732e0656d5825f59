import TradeCore.Common
import TradeCore.Lib.Interleave
import TradeCore.Lib.Table

/-!
# TradeCore.Auth.Challenge

The Stellar challenge-response login: `createChallenge` and `verifyChallenge` interleaved, one
database statement a step.

Statements outside a transaction see committed rows. `SELECT ... FOR UPDATE` takes the row's lock
or waits for it; the conditional UPDATE of a transaction is seen by others only once it commits. A
statement that fails ends the call, and a commit that fails is a rollback. Ed25519 and the check of
a public key are functions of the model (`Stellar`).

`challenge_authenticates_once` is the result: one call at most per challenge, with a valid signature,
in time and for the newest unused challenge, and no trace of a call that fails.
-/

namespace TradeCore
namespace Auth

open Lib

structure StellarAuthChallenge where
  id : Uuid
  nonce : String
  publicKey : String
  expiresAt : Time
  isUsed : Bool
  createdAt : Time
  deriving DecidableEq, Repr

/-- The table with its primary key and its unique index. -/
structure Challenges where
  rows : List StellarAuthChallenge
  ids : (rows.map StellarAuthChallenge.id).Nodup
  nonces : (rows.map StellarAuthChallenge.nonce).Nodup

/-- The SDK: what it takes for a public key and for a signature of a message by one. -/
structure Stellar where
  fromPublicKey : String → Bool
  verify : (publicKey message signatureBase64 : String) → Bool

structure VerifyRequest where
  nonce : String
  publicKey : String
  signatureBase64 : String
  deriving DecidableEq, Repr

/-- `locked` lists the rows whose lock a transaction holds. -/
structure ChallengeDb where
  challenges : Challenges
  locked : List Uuid

/-- What a step learns from outside: the clock, whether its statement fails, the values drawn for a
new row and which of several equally new rows a query returns. -/
structure ChallengeEnv where
  now : Time
  fault : Bool
  id : Uuid
  nonce : String
  pick : Nat

inductive ChallengeOp where
  | createChallenge (publicKey : String)
  | verifyChallenge (req : VerifyRequest)

inductive ChallengeAnswer where
  | created (publicKey : String) (result : Except HttpError (String × Time))
  | verified (req : VerifyRequest) (result : Except HttpError String)

/-- Where a call stands: before the statement its constructor names. -/
inductive ChallengeCall where
  | start (op : ChallengeOp)
  | save (publicKey nonce : String) (expiresAt : Time)
  | insert (row : StellarAuthChallenge)
  | lock (req : VerifyRequest) (challengeId : Uuid)
  | newest (req : VerifyRequest) (locked : StellarAuthChallenge)
  | consume (req : VerifyRequest) (locked : StellarAuthChallenge)
  | commit (req : VerifyRequest) (locked : StellarAuthChallenge)
  | rollback (req : VerifyRequest) (held : Option Uuid) (e : HttpError)

abbrev ChallengeTask := Task ChallengeCall ChallengeAnswer

def challengeTtlSeconds : Int := 120

namespace Challenges

def find (cs : Challenges) (nonce publicKey : String) : Option StellarAuthChallenge :=
  cs.rows.find? fun c => c.nonce = nonce ∧ c.publicKey = publicKey

def byId (cs : Challenges) (id : Uuid) : Option StellarAuthChallenge :=
  lookup StellarAuthChallenge.id id cs.rows

def unusedOf (cs : Challenges) (publicKey : String) : List StellarAuthChallenge :=
  cs.rows.filter fun c => c.publicKey = publicKey ∧ c.isUsed = false

/-- `ORDER BY createdAt DESC LIMIT 1`; rows of the same time come in any order. -/
def newest (cs : Challenges) (publicKey : String) (pick : Nat) : Option StellarAuthChallenge :=
  let tops := (cs.unusedOf publicKey).filter fun c =>
    ∀ c' ∈ cs.unusedOf publicKey, c'.createdAt ≤ c.createdAt
  tops[pick % tops.length]?

def add (cs : Challenges) (row : StellarAuthChallenge)
    (h : row.id ∉ cs.rows.map StellarAuthChallenge.id ∧
      row.nonce ∉ cs.rows.map StellarAuthChallenge.nonce) : Challenges where
  rows := cs.rows ++ [row]
  ids := by simpa [List.nodup_append, cs.ids] using h.1
  nonces := by simpa [List.nodup_append, cs.nonces] using h.2

def use (id : Uuid) (c : StellarAuthChallenge) : StellarAuthChallenge :=
  if c.id = id then { c with isUsed := true } else c

theorem use_id (id : Uuid) (c : StellarAuthChallenge) : (use id c).id = c.id := by
  unfold use; split <;> rfl

theorem use_nonce (id : Uuid) (c : StellarAuthChallenge) : (use id c).nonce = c.nonce := by
  unfold use; split <;> rfl

/-- The committed effect of the conditional UPDATE. -/
def markUsed (cs : Challenges) (id : Uuid) : Challenges where
  rows := cs.rows.map (use id)
  ids := by simpa [Function.comp_def, use_id] using cs.ids
  nonces := by simpa [Function.comp_def, use_nonce] using cs.nonces

end Challenges

/-- The checks on a row that was read, in the order of the source. -/
def refusal (now : Time) (c : StellarAuthChallenge) : Option HttpError :=
  if c.isUsed then some (.unauthorized "Challenge already used")
  else if c.expiresAt < now then some (.unauthorized "Challenge has expired")
  else none

def advance (st : Stellar) (env : ChallengeEnv) (call : ChallengeCall) (db : ChallengeDb) :
    ChallengeDb × ChallengeTask :=
  match call with
  | .start (.createChallenge pk) =>
    if st.fromPublicKey pk then
      (db, .running (.save pk env.nonce (env.now + challengeTtlSeconds * 1000)))
    else (db, .done (.created pk (.error (.badRequest "Invalid Stellar public key"))))
  | .save pk nonce expiresAt =>
    if env.fault then (db, .done (.created pk (.error databaseError)))
    else (db, .running (.insert ⟨env.id, nonce, pk, expiresAt, false, env.now⟩))
  | .insert row =>
    if env.fault then (db, .done (.created row.publicKey (.error databaseError)))
    else if h : row.id ∉ db.challenges.rows.map StellarAuthChallenge.id ∧
        row.nonce ∉ db.challenges.rows.map StellarAuthChallenge.nonce then
      ({ db with challenges := db.challenges.add row h },
        .done (.created row.publicKey (.ok (row.nonce, row.expiresAt))))
    else (db, .done (.created row.publicKey (.error databaseError)))
  | .start (.verifyChallenge req) =>
    if st.fromPublicKey req.publicKey then
      if env.fault then (db, .done (.verified req (.error databaseError)))
      else match db.challenges.find req.nonce req.publicKey with
      | none => (db, .done (.verified req (.error (.unauthorized "Invalid or expired challenge"))))
      | some c =>
        match refusal env.now c with
        | some e => (db, .done (.verified req (.error e)))
        | none => (db, .running (.lock req c.id))
    else (db, .done (.verified req (.error (.badRequest "Invalid Stellar public key"))))
  | .lock req id =>
    if env.fault then (db, .running (.rollback req none databaseError))
    else match db.challenges.byId id with
    | none =>
      (db, .running (.rollback req none (.unauthorized "Invalid or expired challenge")))
    | some row =>
      -- the statement returns once no other transaction holds the row
      if id ∈ db.locked then (db, .running (.lock req id))
      else
        let db' := { db with locked := id :: db.locked }
        match refusal env.now row with
        | some e => (db', .running (.rollback req (some id) e))
        | none => (db', .running (.newest req row))
  | .newest req locked =>
    if env.fault then (db, .running (.rollback req (some locked.id) databaseError))
    else if (db.challenges.newest req.publicKey env.pick).map StellarAuthChallenge.id =
        some locked.id then
      if st.verify req.publicKey req.nonce req.signatureBase64 then
        (db, .running (.consume req locked))
      else (db, .running (.rollback req (some locked.id)
        (.unauthorized "Signature verification failed")))
    else (db, .running (.rollback req (some locked.id)
      (.unauthorized "Challenge has been superseded by a newer challenge")))
  | .consume req locked =>
    if env.fault then (db, .running (.rollback req (some locked.id) databaseError))
    else if (db.challenges.byId locked.id).map StellarAuthChallenge.isUsed = some false then
      (db, .running (.commit req locked))
    else (db, .running (.rollback req (some locked.id) (.unauthorized "Challenge already used")))
  | .commit req locked =>
    let db' := { db with locked := db.locked.erase locked.id }
    if env.fault then (db', .done (.verified req (.error databaseError)))
    else ({ db' with challenges := db.challenges.markUsed locked.id },
      .done (.verified req (.ok req.publicKey)))
  | .rollback req held e =>
    ({ db with locked := held.elim db.locked db.locked.erase }, .done (.verified req (.error e)))

def challengeProc (st : Stellar) :
    Proc ChallengeDb ChallengeEnv ChallengeOp ChallengeCall ChallengeAnswer := ⟨.start, advance st⟩

/-! ## What one step does -/

/-- The row locks a call holds. -/
def ChallengeCall.held : ChallengeCall → List Uuid
  | .newest _ row | .consume _ row | .commit _ row => [row.id]
  | .rollback _ held _ => held.toList
  | _ => []

/-- A call that challenge `nonce` has authenticated. -/
def Authenticated (nonce : String) : ChallengeTask → Bool
  | .done (.verified req (.ok _)) => req.nonce = nonce
  | _ => false

section Step

variable {st : Stellar} {env : ChallengeEnv} {call : ChallengeCall} {db : ChallengeDb}

theorem refusal_none {now : Time} {c : StellarAuthChallenge} (h : refusal now c = none) :
    c.isUsed = false ∧ now ≤ c.expiresAt := by
  unfold refusal at h
  split at h
  · cases h
  · rename_i hused
    split at h
    · cases h
    · rename_i hexpired
      exact ⟨by simpa using hused, Int.not_lt.mp hexpired⟩

/-- A step adds a row, commits the use of one, or leaves the table as it is. -/
theorem advance_cases (st : Stellar) (env : ChallengeEnv) (call : ChallengeCall) (db : ChallengeDb) :
    (∃ row h, call = .insert row ∧ (advance st env call db).1.challenges = db.challenges.add row h ∧
      ∃ r, (advance st env call db).2 = .done (.created row.publicKey r)) ∨
    (∃ req row, call = .commit req row ∧
      (advance st env call db).1.challenges = db.challenges.markUsed row.id ∧
      (advance st env call db).2 = .done (.verified req (.ok req.publicKey))) ∨
    ((advance st env call db).1.challenges = db.challenges ∧
      ∀ n, Authenticated n (advance st env call db).2 = false) := by
  cases call with
  | insert row =>
    simp only [advance]
    split
    · exact .inr (.inr ⟨rfl, fun _ => rfl⟩)
    · split
      · rename_i h
        exact .inl ⟨row, h, rfl, rfl, _, rfl⟩
      · exact .inr (.inr ⟨rfl, fun _ => rfl⟩)
  | commit req row =>
    simp only [advance]
    split
    · exact .inr (.inr ⟨rfl, fun _ => rfl⟩)
    · exact .inr (.inl ⟨req, row, rfl, rfl, rfl⟩)
  | start op =>
    refine .inr (.inr ?_)
    cases op with
    | createChallenge pk =>
      simp only [advance]
      split <;> exact ⟨rfl, fun _ => rfl⟩
    | verifyChallenge req =>
      simp only [advance]
      repeat' split
      all_goals exact ⟨rfl, fun _ => rfl⟩
  | save pk nonce expiresAt | lock req id | newest req row | consume req row =>
    refine .inr (.inr ?_)
    simp only [advance]
    repeat' split
    all_goals exact ⟨rfl, fun _ => rfl⟩
  | rollback req held e => exact .inr (.inr ⟨rfl, fun _ => rfl⟩)

theorem advance_locks (st : Stellar) (env : ChallengeEnv) (call : ChallengeCall) (db : ChallengeDb) :
    ((advance st env call db).1.locked = db.locked ∧
      (advance st env call db).2.gather ChallengeCall.held = call.held) ∨
    (∃ id, id ∉ db.locked ∧ call.held = [] ∧ (advance st env call db).1.locked = id :: db.locked ∧
      (advance st env call db).2.gather ChallengeCall.held = [id]) ∨
    (∃ id, call.held = [id] ∧ (advance st env call db).1.locked = db.locked.erase id ∧
      (advance st env call db).2.gather ChallengeCall.held = []) := by
  cases call with
  | start op =>
    refine .inl ?_
    cases op with
    | createChallenge pk =>
      simp only [advance]
      split <;> exact ⟨rfl, rfl⟩
    | verifyChallenge req =>
      simp only [advance]
      repeat' split
      all_goals exact ⟨rfl, rfl⟩
  | save pk nonce expiresAt | insert row | newest req row | consume req row =>
    refine .inl ?_
    simp only [advance]
    repeat' split
    all_goals exact ⟨rfl, rfl⟩
  | lock req id =>
    simp only [advance]
    split
    · exact .inl ⟨rfl, rfl⟩
    · split
      · exact .inl ⟨rfl, rfl⟩
      · rename_i row hrow
        split
        · exact .inl ⟨rfl, rfl⟩
        · rename_i hfree
          refine .inr (.inl ⟨id, hfree, rfl, ?_⟩)
          split
          · exact ⟨rfl, rfl⟩
          · exact ⟨rfl, congrArg (fun x => [x]) (lookup_key hrow)⟩
  | commit req row =>
    refine .inr (.inr ⟨row.id, rfl, ?_⟩)
    simp only [advance]
    split <;> exact ⟨rfl, rfl⟩
  | rollback req held e =>
    cases held with
    | none => exact .inl ⟨rfl, rfl⟩
    | some id => exact .inr (.inr ⟨id, rfl, rfl, rfl⟩)

/-- The rows of `cs` are in `cs'`, the same but for their use, and unchanged where `ids` holds them. -/
def Keeps (ids : List Uuid) (cs cs' : Challenges) : Prop :=
  ∀ row ∈ cs.rows, ∃ b, { row with isUsed := b } ∈ cs'.rows ∧ (row.id ∈ ids → b = row.isUsed)

theorem Keeps.refl (ids : List Uuid) (cs : Challenges) : Keeps ids cs cs :=
  fun row hrow => ⟨row.isUsed, hrow, fun _ => rfl⟩

theorem Keeps.trans {ids : List Uuid} {cs cs' cs'' : Challenges} (h : Keeps ids cs cs')
    (h' : Keeps ids cs' cs'') : Keeps ids cs cs'' := by
  intro row hrow
  obtain ⟨b, hb, hsame⟩ := h row hrow
  obtain ⟨b', hb', hsame'⟩ := h' _ hb
  exact ⟨b', hb', fun hid => (hsame' hid).trans (hsame hid)⟩

/-- A step changes no row that is locked by another call. -/
theorem keeps_advance (st : Stellar) (env : ChallengeEnv) (db : ChallengeDb) {ids : List Uuid}
    (h : ∀ id ∈ call.held, id ∉ ids) :
    Keeps ids db.challenges (advance st env call db).1.challenges := by
  obtain ⟨row, hnew, rfl, hc, -⟩ | ⟨req, row, rfl, hc, -⟩ | ⟨hc, -⟩ := advance_cases st env call db
  · rw [hc]
    exact fun r hr => ⟨r.isUsed, List.mem_append_left _ hr, fun _ => rfl⟩
  · rw [hc]
    intro r hr
    by_cases hid : r.id = row.id
    · refine ⟨true, List.mem_map.mpr ⟨r, hr, if_pos hid⟩, fun hin => ?_⟩
      exact absurd (hid ▸ hin) (h row.id (List.mem_singleton.mpr rfl))
    · exact ⟨r.isUsed, List.mem_map.mpr ⟨r, hr, if_neg hid⟩, fun _ => rfl⟩
  · rw [hc]
    exact .refl ids _

/-- What a call has read is so: the row it is after exists, and the row it locked is unused. -/
def ChallengeCall.Knows (cs : Challenges) : ChallengeCall → Prop
  | .lock req id => ∃ row ∈ cs.rows, row.id = id ∧ row.nonce = req.nonce ∧ row.publicKey = req.publicKey
  | .newest req row | .consume req row | .commit req row =>
    row ∈ cs.rows ∧ row.isUsed = false ∧ row.nonce = req.nonce ∧ row.publicKey = req.publicKey
  | _ => True

theorem Keeps.row {ids : List Uuid} {cs cs' : Challenges} (h : Keeps ids cs cs')
    {row : StellarAuthChallenge} (hrow : row ∈ cs.rows) (hid : row.id ∈ ids) : row ∈ cs'.rows := by
  obtain ⟨b, hb, hsame⟩ := h row hrow
  rw [hsame hid] at hb
  exact hb

theorem Keeps.knows {cs cs' : Challenges} (h : Keeps call.held cs cs') (hk : call.Knows cs) :
    call.Knows cs' := by
  cases call with
  | lock req id =>
    obtain ⟨row, hrow, hid, hnonce, hpk⟩ := hk
    obtain ⟨b, hb, -⟩ := h row hrow
    exact ⟨_, hb, hid, hnonce, hpk⟩
  | newest req row => exact ⟨h.row hk.1 (by simp [ChallengeCall.held]), hk.2⟩
  | consume req row => exact ⟨h.row hk.1 (by simp [ChallengeCall.held]), hk.2⟩
  | commit req row => exact ⟨h.row hk.1 (by simp [ChallengeCall.held]), hk.2⟩
  | start op => trivial
  | save pk nonce expiresAt => trivial
  | insert row => trivial
  | rollback req held e => trivial

theorem Challenges.eq_of_id {cs : Challenges} {row row' : StellarAuthChallenge} (h : row ∈ cs.rows)
    (h' : row' ∈ cs.rows) (he : row.id = row'.id) : row = row' :=
  List.inj_on_of_nodup_map cs.ids h h' he

theorem Challenges.eq_of_nonce {cs : Challenges} {row row' : StellarAuthChallenge} (h : row ∈ cs.rows)
    (h' : row' ∈ cs.rows) (he : row.nonce = row'.nonce) : row = row' :=
  List.inj_on_of_nodup_map cs.nonces h h' he

/-- The moves of a call that goes on, with what the step has found. -/
inductive Next (st : Stellar) (env : ChallengeEnv) (db : ChallengeDb) :
    ChallengeCall → ChallengeCall → Prop where
  | draw (pk : String) (expiresAt : Time) :
      Next st env db (.start (.createChallenge pk)) (.save pk env.nonce expiresAt)
  | stamp (pk nonce : String) (expiresAt : Time) (row : StellarAuthChallenge) :
      Next st env db (.save pk nonce expiresAt) (.insert row)
  | found {req : VerifyRequest} {c : StellarAuthChallenge} (hc : c ∈ db.challenges.rows)
      (hnonce : c.nonce = req.nonce) (hpk : c.publicKey = req.publicKey)
      (htime : env.now ≤ c.expiresAt) :
      Next st env db (.start (.verifyChallenge req)) (.lock req c.id)
  | wait (req : VerifyRequest) (id : Uuid) : Next st env db (.lock req id) (.lock req id)
  | locked {req : VerifyRequest} {row : StellarAuthChallenge} (hrow : row ∈ db.challenges.rows)
      (hunused : row.isUsed = false) (htime : env.now ≤ row.expiresAt) :
      Next st env db (.lock req row.id) (.newest req row)
  | newest {req : VerifyRequest} {row : StellarAuthChallenge}
      (hnewest : (db.challenges.newest req.publicKey env.pick).map StellarAuthChallenge.id =
        some row.id)
      (hverify : st.verify req.publicKey req.nonce req.signatureBase64 = true) :
      Next st env db (.newest req row) (.consume req row)
  | consume (req : VerifyRequest) (row : StellarAuthChallenge) :
      Next st env db (.consume req row) (.commit req row)
  | fail (call : ChallengeCall) (req : VerifyRequest) (held : Option Uuid) (e : HttpError) :
      Next st env db call (.rollback req held e)

theorem next_of_running {call' : ChallengeCall} (h : (advance st env call db).2 = .running call') :
    Next st env db call call' := by
  cases call with
  | start op =>
    cases op with
    | createChallenge pk =>
      simp only [advance] at h
      split at h <;> cases h
      exact .draw _ _
    | verifyChallenge req =>
      simp only [advance] at h
      repeat' split at h
      all_goals cases h
      rename_i c hc _ hok
      have hfound := List.find?_some hc
      simp only [decide_eq_true_eq] at hfound
      exact .found (List.mem_of_find?_eq_some hc) hfound.1 hfound.2 (refusal_none hok).2
  | save pk nonce expiresAt =>
    simp only [advance] at h
    split at h <;> cases h
    exact .stamp ..
  | insert row =>
    simp only [advance] at h
    repeat' split at h
    all_goals cases h
  | lock req id =>
    simp only [advance] at h
    split at h
    · cases h
      exact .fail ..
    · split at h
      · cases h
        exact .fail ..
      · rename_i row hrow
        split at h
        · cases h
          exact .wait ..
        · split at h
          · cases h
            exact .fail ..
          · rename_i hok
            cases h
            rw [← lookup_key hrow]
            exact .locked (mem_of_lookup hrow) (refusal_none hok).1 (refusal_none hok).2
  | newest req row =>
    simp only [advance] at h
    split at h
    · cases h
      exact .fail ..
    · split at h
      · rename_i hnewest
        split at h
        · rename_i hverify
          cases h
          exact .newest hnewest hverify
        · cases h
          exact .fail ..
      · cases h
        exact .fail ..
  | consume req row =>
    simp only [advance] at h
    repeat' split at h
    all_goals cases h
    · exact .fail ..
    · exact .consume ..
    · exact .fail ..
  | commit req row =>
    simp only [advance] at h
    split at h <;> cases h
  | rollback req held e => cases h

theorem challenges_of_running {call' : ChallengeCall}
    (h : (advance st env call db).2 = .running call') :
    (advance st env call db).1.challenges = db.challenges := by
  obtain ⟨row, hnew, rfl, hc, r, ht⟩ | ⟨req, row, rfl, hc, ht⟩ | ⟨hc, -⟩ :=
    advance_cases st env call db
  · rw [ht] at h
    cases h
  · rw [ht] at h
    cases h
  · exact hc

theorem Next.knows {call' : ChallengeCall} (h : Next st env db call call')
    (hk : call.Knows db.challenges) : call'.Knows db.challenges := by
  cases h with
  | found hc hnonce hpk _ => exact ⟨_, hc, rfl, hnonce, hpk⟩
  | locked hrow hunused _ =>
    obtain ⟨row', hrow', hid, hnonce, hpk⟩ := hk
    rw [Challenges.eq_of_id hrow' hrow hid] at hnonce hpk
    exact ⟨hrow, hunused, hnonce, hpk⟩
  | wait => exact hk
  | newest => exact hk
  | consume => exact hk
  | draw => trivial
  | stamp => trivial
  | fail => trivial

end Step

/-! ## Runs -/

/-- The locks are those of the calls in flight, no row has two, every call knows what it read, and
a challenge that has authenticated a call is used. -/
structure Sound (db : ChallengeDb) (ts : List ChallengeTask) : Prop where
  locks : db.locked.Perm (gather ChallengeCall.held ts)
  exclusive : db.locked.Nodup
  knows : AllRunning (ChallengeCall.Knows db.challenges) ts
  once : ∀ n, ts.countP (Authenticated n) ≤ 1
  used : ∀ n, 0 < ts.countP (Authenticated n) →
    ∃ row ∈ db.challenges.rows, row.nonce = n ∧ row.isUsed = true

section Run

variable {st : Stellar} {env : ChallengeEnv} {call : ChallengeCall} {db : ChallengeDb}
  {ts pre post : List ChallengeTask}

theorem Sound.spawn (h : Sound db ts) (op : ChallengeOp) :
    Sound db (ts ++ [Task.running (ChallengeCall.start op)]) where
  locks := by rw [gather_spawn rfl]; exact h.locks
  exclusive := h.exclusive
  knows := h.knows.spawn trivial
  once n := by
    rw [List.countP_append]
    exact h.once n
  used n hn := by
    rw [List.countP_append] at hn
    exact h.used n hn

theorem locks_advance (st : Stellar) (env : ChallengeEnv)
    (h : Exclusive ChallengeCall.held db.locked (pre ++ .running call :: post)) :
    Exclusive ChallengeCall.held (advance st env call db).1.locked
      (pre ++ (advance st env call db).2 :: post) := by
  obtain ⟨hlocked, hheld⟩ | ⟨id, hfree, hnone, hlocked, hheld⟩ | ⟨id, hone, hlocked, hheld⟩ :=
    advance_locks st env call db
  · rw [hlocked]
    exact h.keep hheld
  · rw [hlocked]
    exact h.acquire hnone hfree hheld
  · rw [hlocked]
    exact h.release hone hheld

theorem knows_advance (h : Sound db (pre ++ .running call :: post)) :
    AllRunning (ChallengeCall.Knows (advance st env call db).1.challenges)
      (pre ++ (advance st env call db).2 :: post) := by
  have hnodup : (gather ChallengeCall.held (pre ++ .running call :: post)).Nodup :=
    h.locks.nodup_iff.mp h.exclusive
  intro k hk
  rw [List.mem_append, List.mem_cons] at hk
  have hother : ∀ k, .running k ∈ pre ∨ .running k ∈ post →
      k.Knows (advance st env call db).1.challenges := by
    intro k hk
    have hknows := h.knows k (by
      rw [List.mem_append, List.mem_cons]
      exact hk.imp id .inr)
    exact (keeps_advance st env db fun id hid =>
      not_mem_of_nodup_gather hnodup hk hid).knows hknows
  rcases hk with hk | hk | hk
  · exact hother k (.inl hk)
  · rw [challenges_of_running hk.symm]
    exact (next_of_running hk.symm).knows h.knows.here
  · exact hother k (.inr hk)

theorem used_advance (st : Stellar) (env : ChallengeEnv) (call : ChallengeCall) {n : String}
    (h : ∃ row ∈ db.challenges.rows, row.nonce = n ∧ row.isUsed = true) :
    ∃ row ∈ (advance st env call db).1.challenges.rows, row.nonce = n ∧ row.isUsed = true := by
  obtain ⟨r, hr, hnonce, hused⟩ := h
  obtain ⟨row, hnew, rfl, hc, -⟩ | ⟨req, row, rfl, hc, -⟩ | ⟨hc, -⟩ := advance_cases st env call db
  · rw [hc]
    exact ⟨r, List.mem_append_left _ hr, hnonce, hused⟩
  · rw [hc]
    refine ⟨Challenges.use row.id r, List.mem_map_of_mem hr, ?_⟩
    rw [Challenges.use_nonce]
    refine ⟨hnonce, ?_⟩
    unfold Challenges.use
    split
    · rfl
    · exact hused
  · rw [hc]
    exact ⟨r, hr, hnonce, hused⟩

theorem Sound.advance (st : Stellar) (env : ChallengeEnv) (h : Sound db (pre ++ .running call :: post)) :
    Sound (advance st env call db).1 (pre ++ (advance st env call db).2 :: post) := by
  obtain ⟨hlocks, hexclusive⟩ := locks_advance st env ⟨h.locks, h.exclusive⟩
  have hcount : ∀ n t, (pre ++ t :: post).countP (Authenticated n) =
      (pre ++ .running call :: post).countP (Authenticated n) + if Authenticated n t then 1 else 0 := by
    intro n t
    simp only [List.countP_append, List.countP_cons, Authenticated]
    split <;> simp [Nat.add_assoc]
  -- only a commit counts a call in; the row it uses was unused, so it was the first of its nonce
  have hcommit : ∀ n, Authenticated n (Auth.advance st env call db).2 = true →
      (pre ++ .running call :: post).countP (Authenticated n) = 0 ∧
        ∃ row ∈ (Auth.advance st env call db).1.challenges.rows, row.nonce = n ∧ row.isUsed = true := by
    intro n hn
    obtain ⟨row, hnew, rfl, -, r, ht⟩ | ⟨req, row, rfl, hc, ht⟩ | ⟨-, ht⟩ :=
      advance_cases st env call db
    · rw [ht] at hn
      cases hn
    · rw [ht] at hn
      have hreq : req.nonce = n := of_decide_eq_true hn
      obtain ⟨hrow, hunused, hnonce, -⟩ := h.knows.here
      refine ⟨?_, ?_⟩
      · by_contra hpos
        obtain ⟨r, hr, hrn, hused⟩ := h.used n (Nat.pos_of_ne_zero hpos)
        have hsame := Challenges.eq_of_nonce hrow hr (by rw [hnonce, hreq, hrn])
        rw [hsame, hused] at hunused
        cases hunused
      · rw [hc]
        exact ⟨_, List.mem_map_of_mem hrow, (Challenges.use_nonce _ _).trans (hnonce.trans hreq),
          by simp [Challenges.use]⟩
    · rw [ht n] at hn
      cases hn
  refine ⟨hlocks, hexclusive, knows_advance h, fun n => ?_, fun n hn => ?_⟩
  · rw [hcount]
    split
    · rename_i ht
      have := (hcommit n ht).1
      omega
    · exact h.once n
  · rw [hcount] at hn
    split at hn
    · rename_i ht
      exact (hcommit n ht).2
    · exact used_advance st env call (h.used n hn)

theorem sound_run (st : Stellar) (cs : Challenges) (acts : List (Act ChallengeEnv ChallengeOp)) :
    Sound (run (challengeProc st).step (Conf.init ⟨cs, []⟩) acts).shared
      (run (challengeProc st).step (Conf.init ⟨cs, []⟩) acts).tasks := by
  refine run_inv (I := fun c : Conf ChallengeDb ChallengeCall ChallengeAnswer => Sound c.shared c.tasks)
    (G := Meets (fun _ => True) fun _ _ _ _ => True) (fun c a hI hG => ?_)
    ⟨.nil, .nil, .nil, fun n => Nat.zero_le 1, fun n hn => absurd hn (Nat.lt_irrefl 0)⟩
    (along_of_spawns (challengeProc st) (fun _ _ => trivial) _)
  exact step_inv (challengeProc st) (fun db ts op _ h => h.spawn op)
    (fun db pre k post e _ h => h.advance st e) c a hI hG

/-- The rows stay in the table, the same but for their use. -/
theorem keeps_run (st : Stellar) (c : Conf ChallengeDb ChallengeCall ChallengeAnswer)
    (acts : List (Act ChallengeEnv ChallengeOp)) :
    Keeps [] c.shared.challenges (run (challengeProc st).step c acts).shared.challenges := by
  induction acts generalizing c with
  | nil => exact .refl [] _
  | cons a acts ih =>
    refine Keeps.trans ?_ (ih _)
    obtain ⟨x, rfl, hs⟩ | ⟨i, e, k, pre, post, rfl, -, -, hs⟩ | hs := step_cases (challengeProc st) c a
    · rw [hs]
      exact .refl [] _
    · rw [hs]
      exact keeps_advance st e c.shared fun _ _ h => by cases h
    · rw [hs]
      exact .refl [] _

end Run

/-! ## What authenticates a call -/

/-- Challenge `id` is unused, of `publicKey`, and none of the unused challenges of that key is newer. -/
def Newest (cs : Challenges) (publicKey : String) (id : Uuid) : Prop :=
  ∃ row ∈ cs.unusedOf publicKey, row.id = id ∧ ∀ row' ∈ cs.unusedOf publicKey, row'.createdAt ≤ row.createdAt

theorem newest_of_query {cs : Challenges} {publicKey : String} {pick : Nat} {id : Uuid}
    (h : (cs.newest publicKey pick).map StellarAuthChallenge.id = some id) : Newest cs publicKey id := by
  obtain ⟨row, hrow, hid⟩ := Option.map_eq_some_iff.mp h
  obtain ⟨hmem, htop⟩ := List.mem_filter.mp (List.mem_of_getElem? hrow)
  exact ⟨row, hmem, hid, of_decide_eq_true htop⟩

section Trail

variable {st : Stellar} {cs : Challenges} {acts : List (Act ChallengeEnv ChallengeOp)} {i : Nat}
  {req : VerifyRequest} {row : StellarAuthChallenge}

theorem init_ne (t : ChallengeTask) :
    (Conf.init (κ := ChallengeCall) (ρ := ChallengeAnswer) (⟨cs, []⟩ : ChallengeDb)).tasks[i]? ≠ some t := by
  intro h
  cases h

/-- The step that brought a call in flight to where it is. -/
theorem exists_next {call : ChallengeCall} (hstart : ∀ op, call ≠ .start op)
    (h : (run (challengeProc st).step (Conf.init ⟨cs, []⟩) acts).tasks[i]? = some (.running call)) :
    ∃ as e bs k, acts = as ++ .sched i e :: bs ∧
      (run (challengeProc st).step (Conf.init ⟨cs, []⟩) as).tasks[i]? = some (.running k) ∧ k ≠ call ∧
      Next st e (run (challengeProc st).step (Conf.init ⟨cs, []⟩) as).shared k call := by
  obtain ⟨as, a, bs, rfl, ⟨x, -, ht⟩ | ⟨e, k, rfl, hk, hne, hadv⟩⟩ :=
    exists_step_to (challengeProc st) (init_ne _) h
  · cases ht
    exact absurd rfl (hstart x)
  · exact ⟨as, e, bs, k, rfl, hk, fun hc => hne (hc ▸ rfl), next_of_running hadv⟩

theorem trail_to_newest
    (h : (run (challengeProc st).step (Conf.init ⟨cs, []⟩) acts).tasks[i]? =
      some (.running (.newest req row))) :
    Took (challengeProc st) (Conf.init ⟨cs, []⟩) acts i
        (fun e k _ => k = .start (.verifyChallenge req) ∧ e.now ≤ row.expiresAt) ∧
      Took (challengeProc st) (Conf.init ⟨cs, []⟩) acts i
        (fun e k _ => k = .lock req row.id ∧ e.now ≤ row.expiresAt) := by
  obtain ⟨as, e, bs, k, rfl, hk, -, hnext⟩ := exists_next (fun _ h => by cases h) h
  cases hnext with
  | locked hrow hunused htime =>
    refine ⟨Took.append ?_ _, ⟨as, e, bs, _, rfl, hk, rfl, htime⟩⟩
    generalize hid : row.id = id at hk
    obtain ⟨as', e', bs', k', rfl, hk', hne, hnext⟩ := exists_next (fun _ h => by cases h) hk
    cases hnext with
    | wait => exact absurd rfl hne
    | found hc hnonce hpk htime' =>
      refine ⟨as', e', bs', _, rfl, hk', rfl, ?_⟩
      rename_i c
      -- the row found and the row locked later are one row: it has kept its expiry
      rw [run_append] at hrow
      obtain ⟨b, hb, -⟩ := keeps_run st
        (run (challengeProc st).step (Conf.init ⟨cs, []⟩) as') (.sched i e' :: bs') c hc
      have hsame := Challenges.eq_of_id hb hrow hid.symm
      rw [← hsame]
      exact htime'

theorem trail_to_commit
    (h : (run (challengeProc st).step (Conf.init ⟨cs, []⟩) acts).tasks[i]? =
      some (.running (.commit req row))) :
    st.verify req.publicKey req.nonce req.signatureBase64 = true ∧
      Took (challengeProc st) (Conf.init ⟨cs, []⟩) acts i
        (fun e k _ => k = .start (.verifyChallenge req) ∧ e.now ≤ row.expiresAt) ∧
      Took (challengeProc st) (Conf.init ⟨cs, []⟩) acts i
        (fun e k _ => k = .lock req row.id ∧ e.now ≤ row.expiresAt) ∧
      Took (challengeProc st) (Conf.init ⟨cs, []⟩) acts i
        (fun _ k db => k = .newest req row ∧ Newest db.challenges req.publicKey row.id) := by
  obtain ⟨as, e, bs, k, rfl, hk, -, hnext⟩ := exists_next (fun _ h => by cases h) h
  cases hnext with
  | consume =>
    obtain ⟨as', e', bs', k', rfl, hk', -, hnext⟩ := exists_next (fun _ h => by cases h) hk
    cases hnext with
    | newest hnewest hverify =>
      obtain ⟨hfound, hlocked⟩ := trail_to_newest hk'
      exact ⟨hverify, (hfound.append _).append _, (hlocked.append _).append _,
        Took.append ⟨as', e', bs', _, rfl, hk', rfl, newest_of_query hnewest⟩ _⟩

theorem commit_of_ok {env : ChallengeEnv} {call : ChallengeCall} {db : ChallengeDb} {pk : String}
    (h : (advance st env call db).2 = .done (.verified req (.ok pk))) :
    pk = req.publicKey ∧ ∃ row, call = .commit req row := by
  obtain ⟨row, hnew, rfl, -, r, ht⟩ | ⟨req', row, rfl, -, ht⟩ | ⟨-, ht⟩ := advance_cases st env call db
  · rw [ht] at h
    cases h
  · rw [ht] at h
    cases h
    exact ⟨rfl, row, rfl⟩
  · have := ht req.nonce
    rw [h] at this
    simp [Authenticated] at this

theorem row_of_ok {pk : String}
    (h : (run (challengeProc st).step (Conf.init ⟨cs, []⟩) acts).tasks[i]? =
      some (.done (.verified req (.ok pk)))) :
    pk = req.publicKey ∧ ∃ row as e bs, acts = as ++ .sched i e :: bs ∧
      (run (challengeProc st).step (Conf.init ⟨cs, []⟩) as).tasks[i]? =
        some (.running (.commit req row)) ∧
      { row with isUsed := true } ∈
        (run (challengeProc st).step (Conf.init ⟨cs, []⟩) acts).shared.challenges.rows := by
  have hsound := sound_run st cs acts
  obtain ⟨as, a, bs, rfl, ⟨x, -, ht⟩ | ⟨e, k, rfl, hk, -, hadv⟩⟩ :=
    exists_step_to (challengeProc st) (init_ne _) h
  · cases ht
  · obtain ⟨hpk, row, rfl⟩ := commit_of_ok hadv
    refine ⟨hpk, row, as, e, bs, rfl, hk, ?_⟩
    obtain ⟨hrow, -, hnonce, -⟩ := (sound_run st cs as).knows _ (List.mem_of_getElem? hk)
    obtain ⟨b, hb, -⟩ := keeps_run st (run (challengeProc st).step (Conf.init ⟨cs, []⟩) as)
      (.sched i e :: bs) row hrow
    rw [← run_append] at hb
    have hcount : 0 < (run (challengeProc st).step (Conf.init ⟨cs, []⟩)
        (as ++ .sched i e :: bs)).tasks.countP (Authenticated req.nonce) :=
      List.countP_pos_iff.mpr ⟨_, List.mem_of_getElem? h, by simp [Authenticated]⟩
    obtain ⟨used, hused, hn, htrue⟩ := hsound.used _ hcount
    have hsame := Challenges.eq_of_nonce hb hused (hnonce.trans hn.symm)
    rw [← hsame] at htrue
    rw [← show b = true from htrue]
    exact hb

end Trail

/-- Over every interleaving: a challenge authenticates at most one call; a call it authenticates
carries a valid signature of the nonce by its key, found and locked it before it expired, and its
query found none newer unused for the key; a call that fails has changed no row in any of its steps,
and the locks are those of calls in flight. -/
theorem challenge_authenticates_once (st : Stellar) (cs : Challenges)
    (acts : List (Act ChallengeEnv ChallengeOp)) :
    (∀ nonce, (run (challengeProc st).step (Conf.init ⟨cs, []⟩) acts).tasks.countP
      (Authenticated nonce) ≤ 1) ∧
    (∀ i req pk, (run (challengeProc st).step (Conf.init ⟨cs, []⟩) acts).tasks[i]? =
        some (.done (.verified req (.ok pk))) →
      pk = req.publicKey ∧ st.verify req.publicKey req.nonce req.signatureBase64 = true ∧
      ∃ row ∈ (run (challengeProc st).step (Conf.init ⟨cs, []⟩) acts).shared.challenges.rows,
        row.nonce = req.nonce ∧ row.publicKey = req.publicKey ∧ row.isUsed = true ∧
        Took (challengeProc st) (Conf.init ⟨cs, []⟩) acts i
          (fun e k _ => k = .start (.verifyChallenge req) ∧ e.now ≤ row.expiresAt) ∧
        Took (challengeProc st) (Conf.init ⟨cs, []⟩) acts i
          (fun e k _ => k = .lock req row.id ∧ e.now ≤ row.expiresAt) ∧
        Took (challengeProc st) (Conf.init ⟨cs, []⟩) acts i
          (fun _ k db => (∃ locked, k = .newest req locked) ∧
            Newest db.challenges req.publicKey row.id)) ∧
    (∀ i req err, (run (challengeProc st).step (Conf.init ⟨cs, []⟩) acts).tasks[i]? =
        some (.done (.verified req (.error err))) →
      ∀ as e bs, acts = as ++ .sched i e :: bs →
        (run (challengeProc st).step (Conf.init ⟨cs, []⟩) (as ++ [.sched i e])).shared.challenges =
          (run (challengeProc st).step (Conf.init ⟨cs, []⟩) as).shared.challenges) ∧
    (run (challengeProc st).step (Conf.init ⟨cs, []⟩) acts).shared.locked.Perm
      (gather ChallengeCall.held (run (challengeProc st).step (Conf.init ⟨cs, []⟩) acts).tasks) := by
  refine ⟨(sound_run st cs acts).once, ?_, ?_, (sound_run st cs acts).locks⟩
  · intro i req pk h
    obtain ⟨hpk, row, as, e, bs, rfl, hk, hmem⟩ := row_of_ok h
    obtain ⟨-, -, hnonce, hkey⟩ := (sound_run st cs as).knows _ (List.mem_of_getElem? hk)
    obtain ⟨hverify, hfound, hlocked, d, e', bs', k', has, hk', hlocked', hnewest⟩ := trail_to_commit hk
    refine ⟨hpk, hverify, _, hmem, hnonce, hkey, rfl, hfound.append _, hlocked.append _, ?_⟩
    exact Took.append ⟨d, e', bs', k', has, hk', ⟨row, hlocked'⟩, hnewest⟩ _
  · intro i req err h as e bs hacts
    rw [hacts] at h
    refine unchanged_of_result (challengeProc st) (f := ChallengeDb.challenges) (fun k _ => ?_) h
    obtain ⟨row, -, -, -, r, ht⟩ | ⟨req', row, -, -, ht⟩ | ⟨hc, -⟩ := advance_cases st e k
      (run (challengeProc st).step (Conf.init ⟨cs, []⟩) as).shared
    · exact .inr ⟨_, ht, fun h => by cases h⟩
    · exact .inr ⟨_, ht, fun h => by cases h⟩
    · exact .inl hc

/-- One challenge and two calls that present the same signature of it: both pass the first read, the
second waits for the lock and then finds the challenge used. -/
def replayed : List (Act ChallengeEnv ChallengeOp) :=
  let at' (now : Time) : ChallengeEnv := ⟨now, false, 7, "c0ffee", 0⟩
  [.spawn (.createChallenge "GA7Q"), .sched 0 (at' 0), .sched 0 (at' 1), .sched 0 (at' 2),
    .spawn (.verifyChallenge ⟨"c0ffee", "GA7Q", "sig"⟩),
    .spawn (.verifyChallenge ⟨"c0ffee", "GA7Q", "sig"⟩),
    .sched 1 (at' 10), .sched 2 (at' 11), .sched 1 (at' 12), .sched 2 (at' 13), .sched 1 (at' 14),
    .sched 1 (at' 15), .sched 1 (at' 16), .sched 2 (at' 17), .sched 2 (at' 18)]

def keypair : Stellar := ⟨fun pk => pk = "GA7Q", fun pk m sig => pk = "GA7Q" ∧ m = "c0ffee" ∧ sig = "sig"⟩

theorem replayed_authenticates_once :
    (run (challengeProc keypair).step (Conf.init ⟨⟨[], .nil, .nil⟩, []⟩) replayed).tasks[2]? =
        some (.done (.verified ⟨"c0ffee", "GA7Q", "sig"⟩
          (.error (.unauthorized "Challenge already used")))) ∧
      keypair.verify "GA7Q" "c0ffee" "sig" = true :=
  ⟨rfl, ((challenge_authenticates_once keypair ⟨[], .nil, .nil⟩ replayed).2.1 1
    ⟨"c0ffee", "GA7Q", "sig"⟩ "GA7Q" rfl).2.1⟩

end Auth
end TradeCore
