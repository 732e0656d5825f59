import TradeCore.Common
import TradeCore.Lib.Interleave
import TradeCore.Lib.Table
import Mathlib.Logic.Relation

/-!
# TradeCore.Auth.Refresh

Refresh token rotation against revocation: `refreshAccessToken`, `logoutAll`, `confirmPasswordReset`
and the end of a login (`issueTokenPair`) interleaved, one database statement a step.

A refresh reads a live token, saves it as revoked and inserts its successor. The save does not ask
whether the token is still live, and nothing ties the insert to the save. `Fresh` says when the two
steps still find what they rest on; in the runs whose steps all do, a token is exchanged once at most
and no descendant of a token outlives a revocation of it (`rotation_safe_of_fresh`). Without it both
fail (`racing_refreshes`).
-/

namespace TradeCore
namespace Auth
namespace Refresh

open Lib

structure User where
  id : Uuid
  email : String
  role : String
  passwordHash : String
  deriving DecidableEq, Repr

structure RequestContext where
  ipAddress : Option String
  userAgent : Option String
  deviceHint : Option String
  deriving DecidableEq, Repr

structure RefreshToken where
  id : Uuid
  userId : Uuid
  tokenHash : String
  lookupHash : Option String
  deviceHint : Option String
  ipAddress : Option String
  userAgent : Option String
  expiresAt : Time
  isRevoked : Bool
  revokedAt : Option Time
  deriving DecidableEq, Repr

structure PasswordResetToken where
  id : Uuid
  userId : Uuid
  tokenHash : String
  lookupHash : Option String
  expiresAt : Time
  isUsed : Bool
  deriving DecidableEq, Repr

structure AuthResult where
  accessToken : String
  refreshToken : String
  userId : Uuid
  email : String
  role : String
  deriving DecidableEq, Repr

/-- bcrypt, the HMAC of the lookup column, the signer of access tokens and the configured lifetime
of a refresh token. -/
structure Settings where
  hash : (salt raw : String) → String
  compare : (raw hash : String) → Bool
  digest : String → String
  sign : User → Time → String
  refreshTokenTtlSecs : Int

/-- The table of refresh tokens with its primary key. -/
structure RefreshTokens where
  rows : List RefreshToken
  ids : (rows.map RefreshToken.id).Nodup

structure SessionDb where
  users : List User
  tokens : RefreshTokens
  resets : List PasswordResetToken

/-- What a step learns from outside: the clock, whether its statement fails, and what it draws. -/
structure SessionEnv where
  now : Time
  fault : Bool
  id : Uuid
  raw : String
  salt : String

inductive SessionOp where
  | issueTokenPair (user : User) (ctx : RequestContext)
  | refreshAccessToken (rawRefreshToken : String) (ctx : RequestContext)
  | logoutAll (userId : Uuid)
  | confirmPasswordReset (rawToken newPassword : String)

/-- How a call ended. A token pair comes with the token it was exchanged for and the row it stored. -/
inductive SessionAnswer where
  | issued (exchanged : Option Uuid) (token : Uuid) (result : AuthResult)
  | loggedOutAll (userId : Uuid)
  | passwordReset (userId : Uuid)
  | failed (e : HttpError)
  deriving DecidableEq

/-- Where a call stands: before the statement its constructor names. -/
inductive SessionCall where
  | start (op : SessionOp)
  | revoke (matched : RefreshToken) (user : User) (ctx : RequestContext)
  | audit (matched : RefreshToken) (user : User) (ctx : RequestContext)
  | issue (exchanged : Uuid) (user : User) (ctx : RequestContext)
  | updatePassword (matched : PasswordResetToken) (newPassword : String)
  | markUsed (matched : PasswordResetToken)
  | revokeAll (matched : PasswordResetToken)
  | auditLogout (userId : Uuid) (reset : Bool)
  | auditReset (userId : Uuid)

abbrev SessionTask := Task SessionCall SessionAnswer

namespace RefreshTokens

def live (ts : RefreshTokens) (lookupHash : String) (now : Time) : Option RefreshToken :=
  ts.rows.find? fun t => t.lookupHash = some lookupHash ∧ t.isRevoked = false ∧ now < t.expiresAt

def add (ts : RefreshTokens) (row : RefreshToken) (h : row.id ∉ ts.rows.map RefreshToken.id) :
    RefreshTokens where
  rows := ts.rows ++ [row]
  ids := by simpa [List.nodup_append, ts.ids] using h

/-- The rows that meet `p` are revoked. -/
def stamp (p : RefreshToken → Bool) (now : Time) (t : RefreshToken) : RefreshToken :=
  if p t then { t with isRevoked := true, revokedAt := some now } else t

@[simp] theorem stamp_id (p : RefreshToken → Bool) (now : Time) (t : RefreshToken) :
    (stamp p now t).id = t.id := by
  unfold stamp; split <;> rfl

@[simp] theorem stamp_userId (p : RefreshToken → Bool) (now : Time) (t : RefreshToken) :
    (stamp p now t).userId = t.userId := by
  unfold stamp; split <;> rfl

def revokeWhere (ts : RefreshTokens) (p : RefreshToken → Bool) (now : Time) : RefreshTokens where
  rows := ts.rows.map (stamp p now)
  ids := by simpa [Function.comp_def] using ts.ids

end RefreshTokens

def invalidRefresh : SessionTask := .done (.failed (.unauthorized "Invalid or expired refresh token"))

def invalidReset : SessionTask := .done (.failed (.badRequest "Invalid or expired reset token"))

def issueTokenPair (cfg : Settings) (env : SessionEnv) (exchanged : Option Uuid) (user : User)
    (ctx : RequestContext) (db : SessionDb) : SessionDb × SessionTask :=
  let row : RefreshToken := {
    id := env.id
    userId := user.id
    tokenHash := cfg.hash env.salt env.raw
    lookupHash := some (cfg.digest env.raw)
    deviceHint := ctx.deviceHint
    ipAddress := ctx.ipAddress
    userAgent := ctx.userAgent
    expiresAt := env.now + cfg.refreshTokenTtlSecs * 1000
    isRevoked := false
    revokedAt := none }
  if h : row.id ∉ db.tokens.rows.map RefreshToken.id then
    -- the unique index on `lookupHash`
    if env.fault ∨ row.lookupHash ∈ db.tokens.rows.map RefreshToken.lookupHash then
      (db, .done (.failed databaseError))
    else ({ db with tokens := db.tokens.add row h }, .done (.issued exchanged row.id
      ⟨cfg.sign user env.now, env.raw, user.id, user.email, user.role⟩))
  else (db, .done (.failed databaseError))

/-- `logoutAll`'s UPDATE of every token of the user that is not revoked. -/
def revokeAllOf (userId : Uuid) (now : Time) (db : SessionDb) : SessionDb :=
  { db with tokens := db.tokens.revokeWhere (fun t => t.userId = userId ∧ t.isRevoked = false) now }

def advance (cfg : Settings) (env : SessionEnv) (call : SessionCall) (db : SessionDb) :
    SessionDb × SessionTask :=
  match call with
  | .start (.issueTokenPair user ctx) => issueTokenPair cfg env none user ctx db
  | .start (.refreshAccessToken raw ctx) =>
    if env.fault then (db, .done (.failed databaseError))
    else match db.tokens.live (cfg.digest raw) env.now with
    | none => (db, invalidRefresh)
    | some m =>
      match lookup User.id m.userId db.users with
      | none => (db, invalidRefresh)
      | some user =>
        if cfg.compare raw m.tokenHash then (db, .running (.revoke m user ctx))
        else (db, invalidRefresh)
  | .revoke m user ctx =>
    if env.fault then (db, .done (.failed databaseError))
    else ({ db with tokens := db.tokens.revokeWhere (fun t => t.id = m.id) env.now },
      .running (.audit m user ctx))
  -- an audit entry that cannot be written is logged and the call goes on
  | .audit m user ctx => (db, .running (.issue m.id user ctx))
  | .issue exchanged user ctx => issueTokenPair cfg env (some exchanged) user ctx db
  | .start (.logoutAll userId) =>
    if env.fault then (db, .done (.failed databaseError))
    else (revokeAllOf userId env.now db, .running (.auditLogout userId false))
  | .start (.confirmPasswordReset raw newPassword) =>
    if env.fault then (db, .done (.failed databaseError))
    else match db.resets.find? fun t =>
        t.lookupHash = some (cfg.digest raw) ∧ t.isUsed = false ∧ env.now < t.expiresAt with
    | none => (db, invalidReset)
    | some m =>
      if (lookup User.id m.userId db.users).isSome ∧ cfg.compare raw m.tokenHash then
        (db, .running (.updatePassword m newPassword))
      else (db, invalidReset)
  | .updatePassword m newPassword =>
    if env.fault then (db, .done (.failed databaseError))
    else ({ db with users := db.users.map fun u =>
        if u.id = m.userId then { u with passwordHash := cfg.hash env.salt newPassword } else u },
      .running (.markUsed m))
  | .markUsed m =>
    if env.fault then (db, .done (.failed databaseError))
    else ({ db with resets := db.resets.map fun t =>
        if t.id = m.id then { t with isUsed := true } else t }, .running (.revokeAll m))
  | .revokeAll m =>
    if env.fault then (db, .done (.failed databaseError))
    else (revokeAllOf m.userId env.now db, .running (.auditLogout m.userId true))
  | .auditLogout userId true => (db, .running (.auditReset userId))
  | .auditLogout userId false => (db, .done (.loggedOutAll userId))
  | .auditReset userId => (db, .done (.passwordReset userId))

def sessionProc (cfg : Settings) :
    Proc SessionDb SessionEnv SessionOp SessionCall SessionAnswer := ⟨.start, advance cfg⟩

/-! ## What is asked of the calls -/

/-- A call that has exchanged token `p` for a new pair. -/
def Exchanges (p : Uuid) : SessionTask → Bool
  | .done (.issued exchanged _ _) => exchanged = some p
  | _ => false

/-- Token `q` was issued in exchange for token `p`. -/
def Exchanged (ts : List SessionTask) (p q : Uuid) : Prop := ∃ r, .done (.issued (some p) q r) ∈ ts

/-- Token `q` comes from token `p` by a chain of refreshes, which may be empty. -/
def Descends (ts : List SessionTask) : Uuid → Uuid → Prop := Relation.ReflTransGen (Exchanged ts)

/-- The result of a `logoutAll` or `confirmPasswordReset` of the user that has completed. -/
def Completes (userId : Uuid) (t : SessionTask) : Prop :=
  t = .done (.loggedOutAll userId) ∨ t = .done (.passwordReset userId)

/-- At the end of the run no token has been exchanged twice, and what descends from a token that was
there before a completed revocation of its user was called is revoked. -/
structure RotationSafe (cfg : Settings) (db : SessionDb) (acts : List (Act SessionEnv SessionOp)) :
    Prop where
  once : ∀ p, (run (sessionProc cfg).step (Conf.init db) acts).tasks.countP (Exchanges p) ≤ 1
  revoked : ∀ as bs, acts = as ++ bs →
    ∀ t ∈ (run (sessionProc cfg).step (Conf.init db) as).shared.tokens.rows,
    ∀ i a, (run (sessionProc cfg).step (Conf.init db) as).tasks.length ≤ i →
      (run (sessionProc cfg).step (Conf.init db) acts).tasks[i]? = some a → Completes t.userId a →
    ∀ q ∈ (run (sessionProc cfg).step (Conf.init db) acts).shared.tokens.rows,
      Descends (run (sessionProc cfg).step (Conf.init db) acts).tasks t.id q.id → q.isRevoked = true

/-- The token a call has revoked and is about to exchange. -/
def SessionCall.rotates : SessionCall → List Uuid
  | .audit m _ _ => [m.id]
  | .issue p _ _ => [p]
  | _ => []

def SessionCall.rotatesFor : SessionCall → List Uuid
  | .audit m _ _ => [m.userId]
  | .issue _ user _ => [user.id]
  | _ => []

/-- A save still finds its token live; an UPDATE of all tokens of a user finds no refresh of that user
between its save and its insert. -/
def Fresh (_ : SessionEnv) (call : SessionCall) (db : SessionDb) (ts : List SessionTask) : Prop :=
  match call with
  | .revoke m _ _ => ∀ row ∈ db.tokens.rows, row.id = m.id → row.isRevoked = false
  | .start (.logoutAll userId) => userId ∉ gather SessionCall.rotatesFor ts
  | .revokeAll m => m.userId ∉ gather SessionCall.rotatesFor ts
  | _ => True

instance Fresh.decidable (env : SessionEnv) (call : SessionCall) (db : SessionDb)
    (ts : List SessionTask) : Decidable (Fresh env call db ts) :=
  match call with
  | .revoke m _ _ =>
    inferInstanceAs (Decidable (∀ row ∈ db.tokens.rows, row.id = m.id → row.isRevoked = false))
  | .start (.logoutAll userId) =>
    inferInstanceAs (Decidable (userId ∉ gather SessionCall.rotatesFor ts))
  | .revokeAll m => inferInstanceAs (Decidable (m.userId ∉ gather SessionCall.rotatesFor ts))
  | .start (.issueTokenPair _ _) => .isTrue trivial
  | .start (.refreshAccessToken _ _) => .isTrue trivial
  | .start (.confirmPasswordReset _ _) => .isTrue trivial
  | .audit .. => .isTrue trivial
  | .issue .. => .isTrue trivial
  | .updatePassword .. => .isTrue trivial
  | .markUsed _ => .isTrue trivial
  | .auditLogout .. => .isTrue trivial
  | .auditReset _ => .isTrue trivial

/-! ## What one step does -/

/-- What a call has read is so: the token it is after exists and is of its user. -/
def SessionCall.Knows (tokens : RefreshTokens) : SessionCall → Prop
  | .revoke m user _ | .audit m user _ =>
    user.id = m.userId ∧ ∃ row ∈ tokens.rows, row.id = m.id ∧ row.userId = m.userId
  | .issue p user _ => ∃ row ∈ tokens.rows, row.id = p ∧ row.userId = user.id
  | _ => True

/-- A call that ends without a token pair, or goes on with the token it rotates. -/
structure Goes (tokens : RefreshTokens) (call : SessionCall) (t : SessionTask) : Prop where
  plain : ∀ p q r, t ≠ .done (.issued p q r)
  rotates : (t.gather SessionCall.rotates).Sublist call.rotates
  knows : call.Knows tokens → ∀ call', t = .running call' → call'.Knows tokens

/-- Everything a step can do to the tokens. -/
inductive Effect (db : SessionDb) (call : SessionCall) : SessionDb → SessionTask → Prop where
  | quiet {db' : SessionDb} {t : SessionTask} (htokens : db'.tokens = db.tokens)
      (h : Goes db.tokens call t) : Effect db call db' t
  | save {m : RefreshToken} {user : User} {ctx : RequestContext} (now : Time)
      (hcall : call = .revoke m user ctx) :
      Effect db call { db with tokens := db.tokens.revokeWhere (fun t => t.id = m.id) now }
        (.running (.audit m user ctx))
  | all {userId : Uuid} (now : Time) (reset : Bool)
      (hcall : call = .start (.logoutAll userId) ∨ ∃ m, call = .revokeAll m ∧ m.userId = userId) :
      Effect db call (revokeAllOf userId now db) (.running (.auditLogout userId reset))
  | insert {exchanged : Option Uuid} {row : RefreshToken} (r : AuthResult)
      (h : row.id ∉ db.tokens.rows.map RefreshToken.id) (hrotates : call.rotates = exchanged.toList)
      (huser : ∀ p ∈ exchanged, ∃ user ctx, call = .issue p user ctx ∧ row.userId = user.id) :
      Effect db call { db with tokens := db.tokens.add row h } (.done (.issued exchanged row.id r))

section Step

variable {cfg : Settings} {env : SessionEnv} {call : SessionCall} {db : SessionDb}

theorem goes_done {tokens : RefreshTokens} {call : SessionCall} {r : SessionAnswer}
    (hr : ∀ p q x, r ≠ .issued p q x) : Goes tokens call (.done r) where
  plain p q x h := hr p q x (Task.done.inj h)
  rotates := List.nil_sublist _
  knows _ _ h := by cases h

theorem goes_failed (tokens : RefreshTokens) (call : SessionCall) (e : HttpError) :
    Goes tokens call (.done (.failed e)) :=
  goes_done fun _ _ _ h => by cases h

theorem goes_running {tokens : RefreshTokens} {call call' : SessionCall}
    (hrotates : call'.rotates.Sublist call.rotates) (hknows : call.Knows tokens → call'.Knows tokens) :
    Goes tokens call (.running call') where
  plain _ _ _ h := by cases h
  rotates := hrotates
  knows hk _ h := by
    cases h
    exact hknows hk

theorem issueTokenPair_effect {exchanged : Option Uuid} {user : User} {ctx : RequestContext}
    (hrotates : call.rotates = exchanged.toList)
    (huser : ∀ p ∈ exchanged, call = .issue p user ctx) :
    Effect db call (issueTokenPair cfg env exchanged user ctx db).1
      (issueTokenPair cfg env exchanged user ctx db).2 := by
  simp only [issueTokenPair]
  split
  · split
    · exact .quiet rfl (goes_failed ..)
    · exact .insert _ _ hrotates fun p hp => ⟨user, ctx, huser p hp, rfl⟩
  · exact .quiet rfl (goes_failed ..)

theorem advance_effect (cfg : Settings) (env : SessionEnv) (call : SessionCall) (db : SessionDb) :
    Effect db call (advance cfg env call db).1 (advance cfg env call db).2 := by
  cases call with
  | start op =>
    cases op with
    | issueTokenPair user ctx => exact issueTokenPair_effect rfl fun p hp => by cases hp
    | refreshAccessToken raw ctx =>
      simp only [advance]
      split
      · exact .quiet rfl (goes_failed ..)
      · split
        · exact .quiet rfl (goes_failed ..)
        · rename_i m hm
          split
          · exact .quiet rfl (goes_failed ..)
          · rename_i user huser
            split
            · refine .quiet rfl (goes_running (List.Sublist.refl _) fun _ => ?_)
              exact ⟨lookup_key huser, m, List.mem_of_find?_eq_some hm, rfl, rfl⟩
            · exact .quiet rfl (goes_failed ..)
    | logoutAll userId =>
      simp only [advance]
      split
      · exact .quiet rfl (goes_failed ..)
      · exact .all _ _ (.inl rfl)
    | confirmPasswordReset raw newPassword =>
      simp only [advance]
      repeat' split
      · exact .quiet rfl (goes_failed ..)
      · exact .quiet rfl (goes_failed ..)
      · exact .quiet rfl (goes_running (List.Sublist.refl _) fun _ => trivial)
      · exact .quiet rfl (goes_failed ..)
  | revoke m user ctx =>
    simp only [advance]
    split
    · exact .quiet rfl (goes_failed ..)
    · exact .save _ rfl
  | audit m user ctx =>
    refine .quiet rfl (goes_running (List.Sublist.refl _) fun hk => ?_)
    obtain ⟨hid, row, hrow, hrowid, huser⟩ := hk
    exact ⟨row, hrow, hrowid, huser.trans hid.symm⟩
  | issue p user ctx =>
    refine issueTokenPair_effect rfl fun p' hp => ?_
    cases hp
    rfl
  | updatePassword m newPassword =>
    simp only [advance]
    split
    · exact .quiet rfl (goes_failed ..)
    · exact .quiet rfl (goes_running (List.Sublist.refl _) fun _ => trivial)
  | markUsed m =>
    simp only [advance]
    split
    · exact .quiet rfl (goes_failed ..)
    · exact .quiet rfl (goes_running (List.Sublist.refl _) fun _ => trivial)
  | revokeAll m =>
    simp only [advance]
    split
    · exact .quiet rfl (goes_failed ..)
    · exact .all _ _ (.inr ⟨m, rfl, rfl⟩)
  | auditLogout userId reset =>
    cases reset with
    | true => exact .quiet rfl (goes_running (List.Sublist.refl _) fun _ => trivial)
    | false => exact .quiet rfl (goes_done fun _ _ _ h => by cases h)
  | auditReset userId => exact .quiet rfl (goes_done fun _ _ _ h => by cases h)

/-- A step keeps the tokens, with their users; what is revoked stays revoked. -/
theorem Effect.keeps {db' : SessionDb} {t : SessionTask} (h : Effect db call db' t) :
    ∀ row ∈ db.tokens.rows, ∃ row' ∈ db'.tokens.rows, row'.id = row.id ∧ row'.userId = row.userId ∧
      (row.isRevoked = true → row'.isRevoked = true) := by
  have hstamp : ∀ p now, ∀ row ∈ db.tokens.rows, ∃ row' ∈ (db.tokens.revokeWhere p now).rows,
      row'.id = row.id ∧ row'.userId = row.userId ∧ (row.isRevoked = true → row'.isRevoked = true) := by
    intro p now row hrow
    refine ⟨_, List.mem_map_of_mem hrow, by simp, by simp, fun hr => ?_⟩
    unfold RefreshTokens.stamp
    split
    · rfl
    · exact hr
  cases h with
  | quiet htokens _ =>
    rw [htokens]
    exact fun row hrow => ⟨row, hrow, rfl, rfl, id⟩
  | save now _ => exact hstamp _ now
  | all now _ _ => exact hstamp _ now
  | insert _ _ _ _ => exact fun row hrow => ⟨row, List.mem_append_left _ hrow, rfl, rfl, id⟩

/-- Where the rows come from: they were there, as live as before or less, or the step inserted them. -/
theorem Effect.origin {db' : SessionDb} {t : SessionTask} (h : Effect db call db' t) :
    ∀ row' ∈ db'.tokens.rows,
      (∃ row ∈ db.tokens.rows, row.id = row'.id ∧ (row.isRevoked = true → row'.isRevoked = true)) ∨
        row'.id ∉ db.tokens.rows.map RefreshToken.id := by
  have hstamp : ∀ p now, ∀ row' ∈ (db.tokens.revokeWhere p now).rows, ∃ row ∈ db.tokens.rows,
      row.id = row'.id ∧ (row.isRevoked = true → row'.isRevoked = true) := by
    intro p now row' hrow'
    obtain ⟨row, hrow, rfl⟩ := List.mem_map.mp hrow'
    refine ⟨row, hrow, by simp, fun hr => ?_⟩
    unfold RefreshTokens.stamp
    split
    · rfl
    · exact hr
  cases h with
  | quiet htokens _ =>
    rw [htokens]
    exact fun row hrow => .inl ⟨row, hrow, rfl, id⟩
  | save now _ => exact fun row hrow => .inl (hstamp _ now row hrow)
  | all now _ _ => exact fun row hrow => .inl (hstamp _ now row hrow)
  | insert _ hnew _ _ =>
    intro row hrow
    rcases List.mem_append.mp hrow with hrow | hrow
    · exact .inl ⟨row, hrow, rfl, id⟩
    · exact .inr (List.mem_singleton.mp hrow ▸ hnew)

end Step

/-! ## A token is exchanged once -/

/-- The calls that have exchanged token `p` or are about to. -/
def spentOn (p : Uuid) (ts : List SessionTask) : Nat :=
  ts.countP (Exchanges p) + (gather SessionCall.rotates ts).count p

structure Sound (db : SessionDb) (ts : List SessionTask) : Prop where
  knows : AllRunning (SessionCall.Knows db.tokens) ts
  issued : ∀ p q, Exchanged ts p q → ∃ rp ∈ db.tokens.rows, ∃ rq ∈ db.tokens.rows,
    rp.id = p ∧ rq.id = q ∧ rp.userId = rq.userId
  once : ∀ p, spentOn p ts ≤ 1
  spent : ∀ p, 0 < spentOn p ts → ∀ row ∈ db.tokens.rows, row.id = p → row.isRevoked = true

section Rotation

variable {cfg : Settings} {env : SessionEnv} {call : SessionCall} {db db' : SessionDb}
  {ts pre post : List SessionTask} {t : SessionTask}

theorem spentOn_replace (p : Uuid) (pre post : List SessionTask) (call : SessionCall) (t : SessionTask) :
    spentOn p (pre ++ t :: post) + call.rotates.count p =
      spentOn p (pre ++ .running call :: post) + (t.gather SessionCall.rotates).count p +
        if Exchanges p t then 1 else 0 := by
  have hrunning : Exchanges p (.running call) = false := rfl
  simp only [spentOn, List.countP_append, List.countP_cons, gather_split, List.count_append, hrunning,
    Bool.false_eq_true, if_false, Task.gather]
  omega

theorem exchanged_replace {p q : Uuid} (h : Exchanged (pre ++ t :: post) p q) (call : SessionCall) :
    (∃ r, t = .done (.issued (some p) q r)) ∨ Exchanged (pre ++ .running call :: post) p q := by
  obtain ⟨r, hr⟩ := h
  rw [List.mem_append, List.mem_cons] at hr
  rcases hr with hr | hr | hr
  · exact .inr ⟨r, List.mem_append_left _ hr⟩
  · exact .inl ⟨r, hr.symm⟩
  · exact .inr ⟨r, List.mem_append_right _ (List.mem_cons_of_mem _ hr)⟩

theorem mem_rotates {k : SessionCall} {p : Uuid} (hk : k.Knows db.tokens) (hp : p ∈ k.rotates) :
    ∃ row ∈ db.tokens.rows, row.id = p ∧ row.userId ∈ k.rotatesFor := by
  cases k with
  | audit m user ctx =>
    obtain ⟨-, row, hrow, hid, huser⟩ := hk
    exact ⟨row, hrow, hid.trans (List.mem_singleton.mp hp).symm, List.mem_singleton.mpr huser⟩
  | issue p' user ctx =>
    obtain ⟨row, hrow, hid, huser⟩ := hk
    exact ⟨row, hrow, hid.trans (List.mem_singleton.mp hp).symm, List.mem_singleton.mpr huser⟩
  | start op => cases hp
  | revoke m user ctx => cases hp
  | updatePassword m pw => cases hp
  | markUsed m => cases hp
  | revokeAll m => cases hp
  | auditLogout u b => cases hp
  | auditReset u => cases hp

theorem exists_of_exchanges {p : Uuid} (h : Exchanges p t = true) :
    ∃ q r, t = .done (.issued (some p) q r) := by
  unfold Exchanges at h
  split at h
  · rename_i exchanged q r
    exact ⟨q, r, by rw [of_decide_eq_true h]⟩
  · cases h

theorem Sound.mem_of_spent (h : Sound db ts) {p : Uuid} (hp : 0 < spentOn p ts) :
    p ∈ db.tokens.rows.map RefreshToken.id := by
  by_cases hc : 0 < ts.countP (Exchanges p)
  · obtain ⟨t, ht, hx⟩ := List.countP_pos_iff.mp hc
    obtain ⟨q, r, rfl⟩ := exists_of_exchanges hx
    obtain ⟨rp, hrp, -, -, hid, -⟩ := h.issued p q ⟨r, ht⟩
    exact List.mem_map.mpr ⟨rp, hrp, hid⟩
  · have hg : p ∈ gather SessionCall.rotates ts := by
      refine List.count_pos_iff.mp ?_
      unfold spentOn at hp
      omega
    obtain ⟨k, hk, hpk⟩ := exists_of_mem_gather hg
    obtain ⟨row, hrow, hid, -⟩ := mem_rotates (h.knows k hk) hpk
    exact List.mem_map.mpr ⟨row, hrow, hid⟩

theorem knows_of_keeps {k : SessionCall}
    (h : ∀ row ∈ db.tokens.rows, ∃ row' ∈ db'.tokens.rows, row'.id = row.id ∧
      row'.userId = row.userId ∧ (row.isRevoked = true → row'.isRevoked = true))
    (hk : k.Knows db.tokens) : k.Knows db'.tokens := by
  have hrow : ∀ p u, (∃ row ∈ db.tokens.rows, row.id = p ∧ row.userId = u) →
      ∃ row ∈ db'.tokens.rows, row.id = p ∧ row.userId = u := by
    rintro p u ⟨row, hrow, hid, huser⟩
    obtain ⟨row', hrow', hid', huser', -⟩ := h row hrow
    exact ⟨row', hrow', hid'.trans hid, huser'.trans huser⟩
  cases k with
  | revoke m user ctx => exact ⟨hk.1, hrow _ _ hk.2⟩
  | audit m user ctx => exact ⟨hk.1, hrow _ _ hk.2⟩
  | issue p user ctx => exact hrow _ _ hk
  | start op => trivial
  | updatePassword m pw => trivial
  | markUsed m => trivial
  | revokeAll m => trivial
  | auditLogout u b => trivial
  | auditReset u => trivial

theorem Effect.knows (he : Effect db call db' t)
    (h : AllRunning (SessionCall.Knows db.tokens) (pre ++ .running call :: post)) :
    AllRunning (SessionCall.Knows db'.tokens) (pre ++ t :: post) := by
  intro k hk
  rw [List.mem_append, List.mem_cons] at hk
  have hold : .running k ∈ pre ++ .running call :: post → k.Knows db'.tokens :=
    fun hk => knows_of_keeps he.keeps (h k hk)
  rcases hk with hk | hk | hk
  · exact hold (List.mem_append_left _ hk)
  · cases he with
    | quiet htokens hgoes =>
      rw [htokens]
      exact hgoes.knows h.here k hk.symm
    | save now hcall =>
      cases hk
      have hm := h.here
      rw [hcall] at hm
      exact knows_of_keeps (k := .audit _ _ _) (Effect.save now hcall).keeps hm
    | all now reset hcall =>
      cases hk
      trivial
    | insert r hnew hrot huser => cases hk
  · exact hold (List.mem_append_right _ (List.mem_cons_of_mem _ hk))

theorem Effect.issued (he : Effect db call db' t) (h : Sound db (pre ++ .running call :: post)) :
    ∀ p q, Exchanged (pre ++ t :: post) p q → ∃ rp ∈ db'.tokens.rows, ∃ rq ∈ db'.tokens.rows,
      rp.id = p ∧ rq.id = q ∧ rp.userId = rq.userId := by
  intro p q hpq
  rcases exchanged_replace hpq call with ⟨r, rfl⟩ | hold
  · cases he with
    | quiet _ hgoes => exact absurd rfl (hgoes.plain _ _ _)
    | insert _ hnew _ huser =>
      obtain ⟨user, ctx, rfl, hrow⟩ := huser p rfl
      obtain ⟨rp, hrp, hid, hpuser⟩ := h.knows.here
      exact ⟨rp, List.mem_append_left _ hrp, _, List.mem_append_right _ (List.mem_singleton.mpr rfl),
        hid, rfl, hpuser.trans hrow.symm⟩
  · obtain ⟨rp, hrp, rq, hrq, hp, hq, huser⟩ := h.issued p q hold
    obtain ⟨rp', hrp', hp', hu', -⟩ := he.keeps rp hrp
    obtain ⟨rq', hrq', hq', hv', -⟩ := he.keeps rq hrq
    exact ⟨rp', hrp', rq', hrq', hp'.trans hp, hq'.trans hq, by rw [hu', hv', huser]⟩

/-- A step spends no call on a token that one was spent on, and only on a token that it revokes. -/
theorem Effect.spends (he : Effect db call db' t) (h : Sound db (pre ++ .running call :: post))
    (hfresh : Fresh env call db (pre ++ .running call :: post)) (p : Uuid) :
    spentOn p (pre ++ t :: post) ≤ spentOn p (pre ++ .running call :: post) ∨
      spentOn p (pre ++ .running call :: post) = 0 ∧ spentOn p (pre ++ t :: post) = 1 ∧
        ∀ row ∈ db'.tokens.rows, row.id = p → row.isRevoked = true := by
  have hcount := spentOn_replace p pre post call t
  cases he with
  | quiet _ hgoes =>
    left
    have hsub := hgoes.rotates.count_le p
    have hplain : Exchanges p t = false := by
      unfold Exchanges
      split
      · exact absurd rfl (hgoes.plain _ _ _)
      · rfl
    rw [hplain] at hcount
    simp only [Bool.false_eq_true, if_false] at hcount
    omega
  | save now hcall =>
    subst hcall
    rename_i m user ctx
    by_cases hp : m.id = p
    · right
      have hzero : spentOn p (pre ++ .running (.revoke m user ctx) :: post) = 0 := by
        by_contra hpos
        obtain ⟨-, row, hrow, hid, -⟩ := h.knows.here
        have hlive := hfresh row hrow hid
        rw [h.spent p (Nat.pos_of_ne_zero hpos) row hrow (hid.trans hp)] at hlive
        cases hlive
      refine ⟨hzero, ?_, ?_⟩
      · simpa [SessionCall.rotates, Task.gather, Exchanges, hzero, hp] using hcount
      · intro row' hrow' hid'
        obtain ⟨row, -, rfl⟩ := List.mem_map.mp hrow'
        rw [RefreshTokens.stamp_id] at hid'
        simp [RefreshTokens.stamp, hid', hp]
    · left
      have : spentOn p (pre ++ .running (.audit m user ctx) :: post) =
          spentOn p (pre ++ .running (.revoke m user ctx) :: post) := by
        simpa [SessionCall.rotates, Task.gather, Exchanges, List.count_singleton, hp] using hcount
      omega
  | all now reset hcall =>
    left
    have hnone : call.rotates = [] := by
      rcases hcall with rfl | ⟨m, rfl, -⟩ <;> rfl
    rw [hnone] at hcount
    simp only [SessionCall.rotates, Task.gather, Exchanges, List.count_nil, Bool.false_eq_true,
      if_false] at hcount
    omega
  | insert r hnew hrot huser =>
    left
    rename_i exchanged row
    rw [hrot] at hcount
    cases exchanged with
    | none =>
      simp only [Task.gather, Exchanges, Option.toList_none, List.count_nil, reduceCtorEq, decide_false,
        Bool.false_eq_true, if_false] at hcount
      omega
    | some p' =>
      simp only [Task.gather, Exchanges, Option.toList_some, List.count_singleton, List.count_nil,
        Option.some.injEq, decide_eq_true_eq, beq_iff_eq] at hcount
      omega

theorem Sound.step (h : Sound db (pre ++ .running call :: post)) (he : Effect db call db' t)
    (hfresh : Fresh env call db (pre ++ .running call :: post)) : Sound db' (pre ++ t :: post) where
  knows := he.knows h.knows
  issued := he.issued h
  once p := by
    rcases he.spends h hfresh p with hle | ⟨-, hone, -⟩
    · exact Nat.le_trans hle (h.once p)
    · omega
  spent p hp row' hrow' hid := by
    rcases he.spends h hfresh p with hle | ⟨-, -, hrevoked⟩
    · have hp : 0 < spentOn p (pre ++ .running call :: post) := Nat.lt_of_lt_of_le hp hle
      rcases he.origin row' hrow' with ⟨row, hrow, hrowid, hrev⟩ | hnew
      · exact hrev (h.spent p hp row hrow (hrowid.trans hid))
      · rw [hid] at hnew
        exact absurd (h.mem_of_spent hp) hnew
    · exact hrevoked row' hrow' hid

theorem Sound.spawn (h : Sound db ts) (op : SessionOp) :
    Sound db (ts ++ [Task.running (SessionCall.start op)]) := by
  have hspent : ∀ p, spentOn p (ts ++ [Task.running (SessionCall.start op)]) = spentOn p ts := by
    intro p
    unfold spentOn
    rw [gather_spawn rfl, List.countP_append]
    rfl
  refine ⟨h.knows.spawn trivial, fun p q hpq => ?_, fun p => ?_, fun p hp => ?_⟩
  · obtain ⟨r, hr⟩ := hpq
    rcases List.mem_append.mp hr with hr | hr
    · exact h.issued p q ⟨r, hr⟩
    · cases List.mem_singleton.mp hr
  · rw [hspent]
    exact h.once p
  · rw [hspent] at hp
    exact h.spent p hp

end Rotation

/-! ## A revocation reaches every descendant -/

/-- From token `p` on nothing is live, and no call is about to exchange what descends from it. -/
structure Cut (p : Uuid) (db : SessionDb) (ts : List SessionTask) : Prop where
  rows : ∀ row ∈ db.tokens.rows, Descends ts p row.id → row.isRevoked = true
  calls : ∀ m ∈ gather SessionCall.rotates ts, ¬ Descends ts p m

section Revocation

variable {cfg : Settings} {env : SessionEnv} {call : SessionCall} {db db' : SessionDb}
  {ts pre post : List SessionTask} {t : SessionTask} {p q : Uuid}

theorem Effect.exchanges (he : Effect db call db' t) {m : Uuid} {r : AuthResult}
    (ht : t = .done (.issued (some m) q r)) : m ∈ call.rotates := by
  cases he with
  | quiet _ hgoes => exact absurd ht (hgoes.plain _ _ _)
  | save => cases ht
  | all => cases ht
  | insert _ _ hrot _ =>
    cases ht
    rw [hrot]
    exact List.mem_singleton.mpr rfl

theorem descends_replace (he : Effect db call db' t)
    (hcalls : ∀ m ∈ call.rotates, ¬ Descends (pre ++ .running call :: post) p m)
    (h : Descends (pre ++ t :: post) p q) : Descends (pre ++ .running call :: post) p q := by
  induction h with
  | refl => exact .refl
  | tail _ hlast ih =>
    rcases exchanged_replace hlast call with ⟨r, hr⟩ | hold
    · exact absurd ih (hcalls _ (he.exchanges hr))
    · exact ih.tail hold

theorem Sound.descends (h : Sound db ts) (hd : Descends ts p q) {row : RefreshToken}
    (hrow : row ∈ db.tokens.rows) (hp : row.id = p) :
    ∃ row' ∈ db.tokens.rows, row'.id = q ∧ row'.userId = row.userId := by
  induction hd with
  | refl => exact ⟨row, hrow, hp, rfl⟩
  | tail _ hlast ih =>
    obtain ⟨rb, hrb, hb, huser⟩ := ih
    obtain ⟨rp, hrp, rq, hrq, hid, hq, huser'⟩ := h.issued _ _ hlast
    have hsame : rp = rb := List.inj_on_of_nodup_map db.tokens.ids hrp hrb (hid.trans hb.symm)
    exact ⟨rq, hrq, hq, by rw [← huser', hsame, huser]⟩

theorem Cut.step (hcut : Cut p db (pre ++ .running call :: post)) {row : RefreshToken}
    (hrow : row ∈ db.tokens.rows) (hp : row.id = p) (h : Sound db (pre ++ .running call :: post))
    (he : Effect db call db' t) (hfresh : Fresh env call db (pre ++ .running call :: post)) :
    Cut p db' (pre ++ t :: post) := by
  have hback : ∀ {q}, Descends (pre ++ t :: post) p q → Descends (pre ++ .running call :: post) p q :=
    descends_replace he fun m hm => hcut.calls m (mem_gather_here hm)
  refine ⟨fun q hq hd => ?_, fun m hm hd => ?_⟩
  · rcases he.origin q hq with ⟨q', hq', hid, hrev⟩ | hnew
    · rw [← hid] at hd
      exact hrev (hcut.rows q' hq' (hback hd))
    · obtain ⟨q', hq', hid, -⟩ := h.descends (hback hd) hrow hp
      exact absurd (List.mem_map.mpr ⟨q', hq', hid⟩) hnew
  · rcases mem_gather_replace (k := call) hm with hm | hm
    · cases he with
      | quiet _ hgoes => exact hcut.calls m (mem_gather_here (hgoes.rotates.subset hm)) (hback hd)
      | save now hcall =>
        subst hcall
        -- the save finds its token live, so the token does not descend from `p`
        obtain ⟨-, r, hr, hid, -⟩ := h.knows.here
        rw [List.mem_singleton.mp hm, ← hid] at hd
        have hlive := hfresh r hr hid
        rw [hcut.rows r hr (hback hd)] at hlive
        cases hlive
      | all => cases hm
      | insert => cases hm
    · exact hcut.calls m hm (hback hd)

/-- The UPDATE of a revocation cuts off every token of the user. -/
theorem Cut.start (h : Sound db (pre ++ .running call :: post)) {row : RefreshToken}
    (hrow : row ∈ db.tokens.rows) (hp : row.id = p) (now : Time) (reset : Bool)
    (hcall : call = .start (.logoutAll row.userId) ∨ ∃ m, call = .revokeAll m ∧ m.userId = row.userId)
    (hfresh : Fresh env call db (pre ++ .running call :: post)) :
    Cut p (revokeAllOf row.userId now db) (pre ++ .running (.auditLogout row.userId reset) :: post) := by
  have he : Effect db call _ _ := .all now reset hcall
  have hnone : call.rotates = [] := by
    rcases hcall with rfl | ⟨m, rfl, -⟩ <;> rfl
  have hfree : row.userId ∉ gather SessionCall.rotatesFor (pre ++ .running call :: post) := by
    rcases hcall with rfl | ⟨m, rfl, hm⟩
    · exact hfresh
    · rw [← hm]
      exact hfresh
  have hback : ∀ {q}, Descends (pre ++ .running (.auditLogout row.userId reset) :: post) p q →
      Descends (pre ++ .running call :: post) p q :=
    descends_replace he fun m hm => by rw [hnone] at hm; cases hm
  refine ⟨fun q' hq' hd => ?_, fun m hm hd => ?_⟩
  · obtain ⟨q, hq, rfl⟩ := List.mem_map.mp hq'
    rw [RefreshTokens.stamp_id] at hd
    obtain ⟨r, hr, hid, huser⟩ := h.descends (hback hd) hrow hp
    rw [List.inj_on_of_nodup_map db.tokens.ids hr hq hid] at huser
    unfold RefreshTokens.stamp
    split
    · rfl
    · rename_i hnot
      simpa [huser] using hnot
  · -- a refresh that is about to exchange such a token is one of the user's
    have hm : m ∈ gather SessionCall.rotates (pre ++ .running call :: post) := by
      rcases mem_gather_replace (k := call) hm with hm | hm
      · cases hm
      · exact hm
    obtain ⟨k, hk, hmk⟩ := exists_of_mem_gather hm
    obtain ⟨r, hr, hid, huser⟩ := mem_rotates (h.knows k hk) hmk
    obtain ⟨r', hr', hid', huser'⟩ := h.descends (hback hd) hrow hp
    rw [List.inj_on_of_nodup_map db.tokens.ids hr hr' (hid.trans hid'.symm), huser'] at huser
    exact hfree (List.mem_flatMap.mpr ⟨_, hk, huser⟩)

/-- A call behind the UPDATE of all tokens of the user. -/
def Revoked (userId : Uuid) : SessionTask → Prop
  | .running (.auditLogout u _) => u = userId
  | .running (.auditReset u) => u = userId
  | .done (.loggedOutAll u) => u = userId
  | .done (.passwordReset u) => u = userId
  | _ => False

theorem issueTokenPair_revoked {exchanged : Option Uuid} {user : User} {ctx : RequestContext}
    {userId : Uuid} : ¬ Revoked userId (issueTokenPair cfg env exchanged user ctx db).2 := by
  simp only [issueTokenPair]
  repeat' split
  all_goals exact id

theorem advance_revoked {userId : Uuid} (h0 : ¬ Revoked userId (.running call))
    (h : Revoked userId (advance cfg env call db).2) :
    (call = .start (.logoutAll userId) ∨ ∃ m, call = .revokeAll m ∧ m.userId = userId) ∧
      ∃ reset, advance cfg env call db =
        (revokeAllOf userId env.now db, .running (.auditLogout userId reset)) := by
  cases call with
  | start op =>
    cases op with
    | issueTokenPair user ctx => exact absurd h issueTokenPair_revoked
    | refreshAccessToken raw ctx =>
      simp only [advance] at h
      repeat' split at h
      all_goals cases h
    | logoutAll u =>
      simp only [advance] at h ⊢
      split at h
      · cases h
      · rename_i hf
        obtain rfl : u = userId := h
        exact ⟨.inl rfl, false, by rw [if_neg hf]⟩
    | confirmPasswordReset raw pw =>
      simp only [advance] at h
      repeat' split at h
      all_goals cases h
  | revoke m user ctx => simp only [advance] at h; split at h <;> cases h
  | audit m user ctx => cases h
  | issue p user ctx => exact absurd h issueTokenPair_revoked
  | updatePassword m pw => simp only [advance] at h; split at h <;> cases h
  | markUsed m => simp only [advance] at h; split at h <;> cases h
  | revokeAll m =>
    simp only [advance] at h ⊢
    split at h
    · cases h
    · rename_i hf
      obtain rfl : m.userId = userId := h
      exact ⟨.inr ⟨m, rfl, rfl⟩, true, by rw [if_neg hf]⟩
  | auditLogout u reset =>
    refine absurd ?_ h0
    cases reset <;> exact h
  | auditReset u => exact absurd h h0

/-- What holds of the tokens along a run that meets the condition. -/
theorem sound_run {acts : List (Act SessionEnv SessionOp)}
    {c : Conf SessionDb SessionCall SessionAnswer} (h : Sound c.shared c.tasks)
    (hfresh : Along (sessionProc cfg).step (Meets (fun _ => True) Fresh) c acts) :
    Sound (run (sessionProc cfg).step c acts).shared (run (sessionProc cfg).step c acts).tasks :=
  run_inv (I := fun c : Conf SessionDb SessionCall SessionAnswer => Sound c.shared c.tasks)
    (fun c a hI hG => step_inv (sessionProc cfg) (fun _ _ op _ h => h.spawn op)
      (fun db _ k _ e hG h => h.step (advance_effect cfg e k db) hG) c a hI hG) h hfresh

theorem sound_init (db : SessionDb) : Sound db [] where
  knows := .nil
  issued _ _ h := by
    obtain ⟨r, hr⟩ := h
    cases hr
  once _ := Nat.zero_le 1
  spent _ h := absurd h (Nat.lt_irrefl 0)

theorem descends_spawn {op : SessionOp} (h : Descends (ts ++ [Task.running (SessionCall.start op)]) p q) :
    Descends ts p q := by
  refine Relation.ReflTransGen.mono (fun a b hab => ?_) _ _ h
  obtain ⟨r, hr⟩ := hab
  rcases List.mem_append.mp hr with hr | hr
  · exact ⟨r, hr⟩
  · cases List.mem_singleton.mp hr

theorem cut_run {acts : List (Act SessionEnv SessionOp)}
    {c : Conf SessionDb SessionCall SessionAnswer} (h : Sound c.shared c.tasks)
    (hcut : Cut p c.shared c.tasks) (hp : ∃ row ∈ c.shared.tokens.rows, row.id = p)
    (hfresh : Along (sessionProc cfg).step (Meets (fun _ => True) Fresh) c acts) :
    Cut p (run (sessionProc cfg).step c acts).shared (run (sessionProc cfg).step c acts).tasks := by
  have hrun := run_inv (G := Meets (fun _ => True) Fresh)
    (I := fun c : Conf SessionDb SessionCall SessionAnswer => Sound c.shared c.tasks ∧
      Cut p c.shared c.tasks ∧ ∃ row ∈ c.shared.tokens.rows, row.id = p)
    (fun c a hI hG => step_inv (sessionProc cfg)
      (I := fun db ts => Sound db ts ∧ Cut p db ts ∧ ∃ row ∈ db.tokens.rows, row.id = p)
      (fun _ _ op _ h => ?_) (fun db _ k _ e hG h => ?_) c a hI hG) ⟨h, hcut, hp⟩ hfresh
  · exact hrun.2.1
  · obtain ⟨hs, hc, hp⟩ := h
    refine ⟨hs.spawn op, ⟨fun row hrow hd => hc.rows row hrow (descends_spawn hd), ?_⟩, hp⟩
    intro m hm hd
    rw [gather_spawn rfl] at hm
    exact hc.calls m hm (descends_spawn hd)
  · obtain ⟨hs, hc, row, hrow, hid⟩ := h
    have he := advance_effect cfg e k db
    obtain ⟨row', hrow', hid', -⟩ := he.keeps row hrow
    exact ⟨hs.step he hG, hc.step hrow hid hs he hG, row', hrow', hid'.trans hid⟩

/-- Tokens stay in the table, with their users. -/
theorem keeps_run (cfg : Settings) (acts : List (Act SessionEnv SessionOp))
    (c : Conf SessionDb SessionCall SessionAnswer) {row : RefreshToken}
    (hrow : row ∈ c.shared.tokens.rows) :
    ∃ row' ∈ (run (sessionProc cfg).step c acts).shared.tokens.rows,
      row'.id = row.id ∧ row'.userId = row.userId := by
  induction acts generalizing c row with
  | nil => exact ⟨row, hrow, rfl, rfl⟩
  | cons a acts ih =>
    have hstep : ∃ row' ∈ ((sessionProc cfg).step c a).shared.tokens.rows,
        row'.id = row.id ∧ row'.userId = row.userId := by
      obtain ⟨x, -, hs⟩ | ⟨i, e, k, pre, post, -, -, -, hs⟩ | hs := step_cases (sessionProc cfg) c a
      · rw [hs]
        exact ⟨row, hrow, rfl, rfl⟩
      · rw [hs]
        obtain ⟨row', hrow', hid, huser, -⟩ := (advance_effect cfg e k c.shared).keeps row hrow
        exact ⟨row', hrow', hid, huser⟩
      · rw [hs]
        exact ⟨row, hrow, rfl, rfl⟩
    obtain ⟨row', hrow', hid, huser⟩ := hstep
    obtain ⟨row'', hrow'', hid', huser'⟩ := ih _ hrow'
    exact ⟨row'', hrow'', hid'.trans hid, huser'.trans huser⟩

end Revocation

/-- In every run whose saves find their tokens live and whose revocations find no refresh of the user
between its save and its insert, rotation is safe. -/
theorem rotation_safe_of_fresh (cfg : Settings) (db : SessionDb) (acts : List (Act SessionEnv SessionOp))
    (hfresh : Along (sessionProc cfg).step (Meets (fun _ => True) Fresh) (Conf.init db) acts) :
    RotationSafe cfg db acts := by
  refine ⟨fun p => ?_, ?_⟩
  · have := (sound_run (sound_init db) hfresh).once p
    unfold spentOn at this
    omega
  · intro as bs hacts t ht i a hi ha hdone q hq hd
    have hrevoked : Revoked t.userId a := by
      rcases hdone with rfl | rfl <;> rfl
    obtain ⟨as', b, bs', hb, ⟨op, -, hop⟩ | ⟨e, k, rfl, hk, hk0, hadv⟩⟩ :=
      exists_step_into (sessionProc cfg) (fun u hu => by cases hu) ha hrevoked
    · cases hop
    · -- the step of the call that revokes comes after `as`, so the token is there
      obtain ⟨ds, rfl⟩ := prefix_of_later (sessionProc cfg) (hacts.symm.trans hb) hi hk
      obtain ⟨t', ht', hid, huser⟩ := keeps_run cfg ds
        (run (sessionProc cfg).step (Conf.init db) as) ht
      rw [← run_append] at ht'
      rw [← huser] at hk0 hadv
      obtain ⟨hcall, reset, hupdate⟩ := advance_revoked hk0 hadv
      rw [hb] at hfresh hd hq
      obtain ⟨hpast, hstep, hrest⟩ := along_append.mp hfresh
      obtain ⟨pre, post, hpre, hset⟩ := split_of_getElem? hk
      have hsound := sound_run (sound_init db) hpast
      have hfreshk := hstep k hk
      rw [hpre] at hsound hfreshk
      have hnext : (sessionProc cfg).step (run (sessionProc cfg).step (Conf.init db) (as ++ ds))
          (.sched i e) = ⟨revokeAllOf t'.userId e.now
            (run (sessionProc cfg).step (Conf.init db) (as ++ ds)).shared,
            pre ++ .running (.auditLogout t'.userId reset) :: post⟩ := by
        rw [step_sched _ hk, hset]
        simp only [sessionProc] at hupdate ⊢
        rw [hupdate]
      have hcut := Cut.start hsound ht' hid e.now reset hcall hfreshk
      have hsound' := hsound.step (.all e.now reset hcall) hfreshk
      rw [run_append, run, hnext] at hd hq
      rw [hnext] at hrest
      have he : Effect (run (sessionProc cfg).step (Conf.init db) (as ++ ds)).shared k _ _ :=
        .all e.now reset hcall
      obtain ⟨t'', ht'', hid'', -⟩ := he.keeps t' ht'
      exact (cut_run hsound' hcut ⟨t'', ht'', hid''.trans hid⟩ hrest).rows q hq hd

/-! ## The races -/

def settings : Settings where
  hash salt raw := salt ++ "$" ++ raw
  compare raw hash := hash = "salt$" ++ raw
  digest raw := "hmac:" ++ raw
  sign user _ := "jwt:" ++ user.email
  refreshTokenTtlSecs := 2592000

def alice : User := ⟨5, "alice@example.org", "user", "salt$pw"⟩

def sessions : SessionDb := ⟨[alice], ⟨[], .nil⟩, []⟩

def noContext : RequestContext := ⟨none, none, none⟩

/-- A step at which nothing is drawn, and one that draws token `n`. -/
def plain : SessionEnv := ⟨0, false, 0, "", "salt"⟩

def draws (n : Nat) (raw : String) : SessionEnv := ⟨0, false, n, raw, "salt"⟩

def login : List (Act SessionEnv SessionOp) :=
  [.spawn (.issueTokenPair alice noContext), .sched 0 (draws 1 "first")]

/-- Two refreshes read the same token before either saves it. -/
def bothRead : List (Act SessionEnv SessionOp) :=
  login ++ [.spawn (.refreshAccessToken "first" noContext), .spawn (.refreshAccessToken "first" noContext),
    .sched 1 plain, .sched 2 plain, .sched 1 plain, .sched 2 plain, .sched 1 plain, .sched 2 plain,
    .sched 1 (draws 2 "second"), .sched 2 (draws 3 "third")]

/-- All tokens are revoked while a refresh stands between its save and its insert. -/
def afterLogout : List (Act SessionEnv SessionOp) :=
  login ++ [.spawn (.refreshAccessToken "first" noContext), .sched 1 plain, .sched 1 plain,
    .spawn (.logoutAll 5), .sched 2 plain, .sched 2 plain, .sched 1 plain, .sched 1 (draws 2 "second")]

/-- Both refreshes get a pair for one token, and a token outlives the revocation of its parent. -/
theorem racing_refreshes :
    ¬ RotationSafe settings sessions bothRead ∧ ¬ RotationSafe settings sessions afterLogout := by
  constructor
  · intro h
    have hcount : (run (sessionProc settings).step (Conf.init sessions) bothRead).tasks.countP
        (Exchanges 1) = 2 := by decide +kernel
    have := h.once 1
    omega
  · intro h
    have hparent : ∃ t ∈ (run (sessionProc settings).step (Conf.init sessions) login).shared.tokens.rows,
        t.id = 1 ∧ t.userId = 5 := by decide +kernel
    have hchild : ∃ q ∈ (run (sessionProc settings).step (Conf.init sessions)
        afterLogout).shared.tokens.rows, q.id = 2 ∧ q.isRevoked = false := by decide +kernel
    obtain ⟨t, ht, hid, huser⟩ := hparent
    obtain ⟨q, hq, hqid, hlive⟩ := hchild
    have hdesc : Descends (run (sessionProc settings).step (Conf.init sessions) afterLogout).tasks
        t.id q.id := by
      rw [hid, hqid]
      exact .single ⟨⟨"jwt:alice@example.org", "second", 5, "alice@example.org", "user"⟩,
        List.mem_of_getElem? (i := 1) rfl⟩
    have := h.revoked login _ rfl t ht 2 (.done (.loggedOutAll 5)) (by decide +kernel) rfl
      (.inl (by rw [huser])) q hq hdesc
    rw [this] at hlive
    cases hlive

/-- A refresh, a second one with the token it was given, and a revocation, one after the other. -/
def oneByOne : List (Act SessionEnv SessionOp) :=
  login ++ [.spawn (.refreshAccessToken "first" noContext), .sched 1 plain, .sched 1 plain,
    .sched 1 plain, .sched 1 (draws 2 "second"), .spawn (.refreshAccessToken "second" noContext),
    .sched 2 plain, .sched 2 plain, .sched 2 plain, .sched 2 (draws 3 "third"),
    .spawn (.logoutAll 5), .sched 3 plain, .sched 3 plain]

theorem rotation_safe_oneByOne :
    (run (sessionProc settings).step (Conf.init sessions) oneByOne).tasks.countP (Exchanges 2) = 1 ∧
      RotationSafe settings sessions oneByOne := by
  refine ⟨by decide +kernel, rotation_safe_of_fresh settings sessions oneByOne ?_⟩
  decide +kernel

end Refresh
end Auth
end TradeCore
