import TradeCore.Common
import TradeCore.Lib.HexText
import TradeCore.Lib.Interleave
import TradeCore.Lib.Table

/-!
# TradeCore.Wallet.Primary

The primary wallet of a user: `create`, `update` and `remove` interleaved, one database statement a
step.

A transaction sees committed rows and its own writes. `UPDATE ... WHERE userId AND isPrimary` takes
its rows from a snapshot, then locks them one after the other and looks at each again; rows that
others commit in between are not in it. `save` reads the row and writes the columns in which the
entity differs from it, also those that the entity holds from an earlier read.

No index keeps a second primary wallet out. One is kept out in the runs in which the calls that are
to leave a wallet primary do not overlap (`one_primary_of_alone`); two first wallets made at the same
time are both primary (`two_first_wallets`).
-/

namespace TradeCore
namespace Wallets

open Lib

inductive WalletStatus where
  | active
  | inactive
  | locked
  deriving DecidableEq, Repr

structure Wallet where
  id : Uuid
  userId : Uuid
  publicKey : String
  encryptedSecretKey : String
  label : Option String
  status : WalletStatus
  isPrimary : Bool
  deriving DecidableEq, Repr

structure CreateWalletDto where
  label : Option String
  isPrimary : Option Bool
  deriving DecidableEq, Repr

structure UpdateWalletDto where
  label : Option String
  status : Option WalletStatus
  isPrimary : Option Bool
  deriving DecidableEq, Repr

/-- The table with its primary key. -/
structure WalletTable where
  rows : List Wallet
  ids : (rows.map Wallet.id).Nodup

/-- The committed rows, and the rows a transaction in flight has locked. -/
structure WalletDb where
  wallets : WalletTable
  locked : List Uuid

/-! ## The text of a secret key -/

/-- AES-256-GCM under the key of the service. `none` is an exception. -/
structure Cipher where
  /-- The ciphertext of a text and its tag. -/
  encipher : (iv : List (Fin 256)) → (plaintext : String) → List (Fin 256) × List (Fin 256)
  decipher : (iv authTag encrypted : List Nat) → Option String

def ivLength : Nat := 16

/-- What `randomBytes(IV_LENGTH)` draws. -/
abbrev Iv := { bytes : List (Fin 256) // bytes.length = ivLength }

def encrypt (c : Cipher) (iv : Iv) (plaintext : String) : String :=
  let encrypted := (c.encipher iv plaintext).1
  let authTag := (c.encipher iv plaintext).2
  String.ofList (hexOf iv ++ ':' :: (hexOf authTag ++ ':' :: hexOf encrypted))

/-! ## The calls -/

/-- What a step learns from outside: whether its statement fails, and the row id, the key pair and the
vector it draws. -/
structure WalletEnv where
  fault : Bool
  id : Uuid
  publicKey : String
  secretKey : String
  iv : Iv

inductive WalletOp where
  | create (userId : Uuid) (dto : CreateWalletDto)
  | update (id userId : Uuid) (dto : UpdateWalletDto)
  | remove (id userId : Uuid)

/-- What a transaction is to store: a new wallet, or an entity read before with its new values. -/
inductive Aim where
  | insert (userId : Uuid) (publicKey encryptedSecretKey : String) (label : Option String)
      (isPrimary : Bool)
  | save (wallet : Wallet) (returned : Bool)
  deriving DecidableEq

/-- The columns an UPDATE sets. -/
structure Diff where
  label : Option (Option String)
  status : Option WalletStatus
  isPrimary : Option Bool
  deriving DecidableEq, Repr

inductive Change where
  | insert (row : Wallet)
  | set (id : Uuid) (diff : Diff)
  deriving DecidableEq

/-- Where a call stands: before the statement its constructor names. `cleared` lists the rows that its
transaction has set to not primary. -/
inductive WalletCall where
  | start (op : WalletOp)
  | clear (aim : Aim)
  | locking (aim : Aim) (targets cleared : List Uuid)
  | save (aim : Aim) (cleared : List Uuid)
  | write (wallet : Wallet) (returned : Bool) (diff : Diff) (cleared : List Uuid)
  | commit (aim : Aim) (cleared held : List Uuid) (change : Change)
  | rollback (held : List Uuid) (e : HttpError)

abbrev WalletTask := Task WalletCall (Except HttpError (Option Wallet))

namespace Aim

def userId : Aim → Uuid
  | insert u _ _ _ _ => u
  | save w _ => w.userId

/-- The wallet is to be stored as a primary one. -/
def isPrimary : Aim → Bool
  | insert _ _ _ _ p => p
  | save w _ => w.isPrimary

/-- The row it is stored in, when there is one already. -/
def own : Aim → List Uuid
  | insert .. => []
  | save w _ => [w.id]

end Aim

namespace Diff

def of (stored entity : Wallet) : Diff where
  label := if stored.label = entity.label then none else some entity.label
  status := if stored.status = entity.status then none else some entity.status
  isPrimary := if stored.isPrimary = entity.isPrimary then none else some entity.isPrimary

def empty : Diff := ⟨none, none, none⟩

def apply (d : Diff) (w : Wallet) : Wallet :=
  { w with
    label := d.label.getD w.label
    status := d.status.getD w.status
    isPrimary := d.isPrimary.getD w.isPrimary }

end Diff

/-- `Object.assign(wallet, dto)`. -/
def UpdateWalletDto.assign (dto : UpdateWalletDto) (w : Wallet) : Wallet :=
  { w with
    label := dto.label.orElse fun _ => w.label
    status := dto.status.getD w.status
    isPrimary := dto.isPrimary.getD w.isPrimary }

namespace WalletTable

def byId (ws : WalletTable) (id : Uuid) : Option Wallet := lookup Wallet.id id ws.rows

def count (ws : WalletTable) (userId : Uuid) : Nat := ws.rows.countP fun w => w.userId = userId

def primaries (ws : WalletTable) (userId : Uuid) : List Uuid :=
  (ws.rows.filter fun w => w.userId = userId ∧ w.isPrimary = true).map Wallet.id

def findOne (ws : WalletTable) (id userId : Uuid) : Except HttpError Wallet :=
  match ws.byId id with
  | none => .error (.notFound s!"Wallet {id} not found")
  | some w => if w.userId = userId then .ok w else .error (.forbidden "You do not own this wallet")

def add (ws : WalletTable) (row : Wallet) (h : row.id ∉ ws.rows.map Wallet.id) : WalletTable where
  rows := ws.rows ++ [row]
  ids := by simpa [List.nodup_append, ws.ids] using h

def clearRow (cleared : List Uuid) (w : Wallet) : Wallet :=
  if w.id ∈ cleared then { w with isPrimary := false } else w

def setRow (id : Uuid) (diff : Diff) (w : Wallet) : Wallet := if w.id = id then diff.apply w else w

@[simp] theorem clearRow_id (cleared : List Uuid) (w : Wallet) : (clearRow cleared w).id = w.id := by
  unfold clearRow; split <;> rfl

@[simp] theorem clearRow_userId (cleared : List Uuid) (w : Wallet) :
    (clearRow cleared w).userId = w.userId := by
  unfold clearRow; split <;> rfl

@[simp] theorem setRow_id (id : Uuid) (diff : Diff) (w : Wallet) : (setRow id diff w).id = w.id := by
  unfold setRow; split <;> rfl

@[simp] theorem setRow_userId (id : Uuid) (diff : Diff) (w : Wallet) :
    (setRow id diff w).userId = w.userId := by
  unfold setRow; split <;> rfl

def clear (ws : WalletTable) (cleared : List Uuid) : WalletTable where
  rows := ws.rows.map (clearRow cleared)
  ids := by simpa [Function.comp_def] using ws.ids

def set (ws : WalletTable) (id : Uuid) (diff : Diff) : WalletTable where
  rows := ws.rows.map (setRow id diff)
  ids := by simpa [Function.comp_def] using ws.ids

/-- The table once a transaction is committed; `none` when the primary key or the unique index on
`publicKey` is violated. -/
def store (ws : WalletTable) (cleared : List Uuid) : Change → Option WalletTable
  | .insert row =>
    if row.publicKey ∈ ws.rows.map Wallet.publicKey then none
    else if h : row.id ∉ (ws.clear cleared).rows.map Wallet.id then some ((ws.clear cleared).add row h)
    else none
  | .set id diff => some ((ws.clear cleared).set id diff)

end WalletTable

def Change.saved (aim : Aim) : Change → Option Wallet
  | .insert row => some row
  | .set _ _ =>
    match aim with
    | .save w true => some w
    | _ => none

/-- The end of a transaction: its locks are free again. -/
def WalletDb.release (db : WalletDb) (held : List Uuid) : WalletDb :=
  { db with locked := db.locked.diff held }

def advance (cipher : Cipher) (env : WalletEnv) (call : WalletCall) (db : WalletDb) : WalletDb × WalletTask :=
  match call with
  | .start (.create userId dto) =>
    if env.fault then (db, .done (.error databaseError))
    else
      let isPrimary := dto.isPrimary.getD (db.wallets.count userId = 0)
      let aim : Aim := .insert userId env.publicKey (encrypt cipher env.iv env.secretKey) dto.label isPrimary
      if isPrimary then (db, .running (.clear aim)) else (db, .running (.save aim []))
  | .start (.update id userId dto) =>
    if env.fault then (db, .done (.error databaseError))
    else match db.wallets.findOne id userId with
    | .error e => (db, .done (.error e))
    | .ok w =>
      let aim : Aim := .save (dto.assign w) true
      if dto.isPrimary = some true then (db, .running (.clear aim)) else (db, .running (.save aim []))
  | .start (.remove id userId) =>
    if env.fault then (db, .done (.error databaseError))
    else match db.wallets.findOne id userId with
    | .error e => (db, .done (.error e))
    | .ok w =>
      if w.isPrimary then (db, .done (.error (.badRequest
        "Cannot remove the primary wallet. Assign another wallet as primary first.")))
      else (db, .running (.save (.save { w with status := .inactive } false) []))
  | .clear aim =>
    if env.fault then (db, .running (.rollback [] databaseError))
    else (db, .running (.locking aim (db.wallets.primaries aim.userId) []))
  | .locking aim [] cleared => (db, .running (.save aim cleared))
  | .locking aim (id :: targets) cleared =>
    if env.fault then (db, .running (.rollback cleared databaseError))
    else if id ∈ db.locked then (db, .running (.locking aim (id :: targets) cleared))
    else if id ∈ db.wallets.primaries aim.userId then
      ({ db with locked := id :: db.locked }, .running (.locking aim targets (id :: cleared)))
    else (db, .running (.locking aim targets cleared))
  | .save (.insert userId publicKey encryptedSecretKey label isPrimary) cleared =>
    if env.fault then (db, .running (.rollback cleared databaseError))
    else (db, .running (.commit (.insert userId publicKey encryptedSecretKey label isPrimary) cleared
      cleared (.insert ⟨env.id, userId, publicKey, encryptedSecretKey, label, .active, isPrimary⟩)))
  | .save (.save w returned) cleared =>
    if env.fault then (db, .running (.rollback cleared databaseError))
    else match db.wallets.byId w.id with
    | none => (db, .running (.rollback cleared databaseError))
    | some row =>
      let diff := Diff.of (WalletTable.clearRow cleared row) w
      if diff = .empty then (db, .running (.commit (.save w returned) cleared cleared (.set w.id diff)))
      else (db, .running (.write w returned diff cleared))
  | .write w returned diff cleared =>
    if env.fault then (db, .running (.rollback cleared databaseError))
    else if w.id ∈ cleared then
      (db, .running (.commit (.save w returned) cleared cleared (.set w.id diff)))
    else if w.id ∈ db.locked then (db, .running (.write w returned diff cleared))
    else ({ db with locked := w.id :: db.locked },
      .running (.commit (.save w returned) cleared (w.id :: cleared) (.set w.id diff)))
  | .commit aim cleared held change =>
    match if env.fault then none else db.wallets.store cleared change with
    | none => (db.release held, .done (.error databaseError))
    | some wallets => ({ (db.release held) with wallets }, .done (.ok (change.saved aim)))
  | .rollback held e => (db.release held, .done (.error e))

def walletProc (cipher : Cipher) :
    Proc WalletDb WalletEnv WalletOp WalletCall (Except HttpError (Option Wallet)) :=
  ⟨.start, advance cipher⟩

/-! ## What is asked of the calls -/

/-- The user has no two primary wallets. -/
def OnePrimary (u : Uuid) (ws : WalletTable) : Prop :=
  ∀ w ∈ ws.rows, ∀ w' ∈ ws.rows, w.userId = u → w'.userId = u → w.isPrimary = true →
    w'.isPrimary = true → w = w'

instance (u : Uuid) (ws : WalletTable) : Decidable (OnePrimary u ws) :=
  inferInstanceAs (Decidable (∀ w ∈ ws.rows, ∀ w' ∈ ws.rows, _))

def Aim.claims (aim : Aim) : List Uuid := if aim.isPrimary then [aim.userId] else []

/-- The user for whom a call in flight is to leave a wallet primary. -/
def WalletCall.claims : WalletCall → List Uuid
  | .clear aim | .locking aim _ _ | .save aim _ | .commit aim _ _ _ => aim.claims
  | .write w returned _ _ => (Aim.save w returned).claims
  | _ => []

/-- The user for whom a call is to leave a wallet primary, as its first read decides it. -/
def WalletOp.claims (ws : WalletTable) : WalletOp → List Uuid
  | .create u dto => if dto.isPrimary.getD (ws.count u = 0) then [u] else []
  | .update id u dto =>
    match ws.findOne id u with
    | .ok w => if dto.isPrimary.getD w.isPrimary then [u] else []
    | .error _ => []
  | .remove _ _ => []

/-- No call on a primary wallet of `u` begins while another one is in flight. -/
def Alone (u : Uuid) (_ : WalletEnv) (call : WalletCall) (db : WalletDb) (ts : List WalletTask) : Prop :=
  match call with
  | .start op => u ∈ op.claims db.wallets → u ∉ gather WalletCall.claims ts
  | _ => True

instance Alone.decidable (u : Uuid) (env : WalletEnv) (call : WalletCall) (db : WalletDb)
    (ts : List WalletTask) : Decidable (Alone u env call db ts) :=
  match call with
  | .start op =>
    inferInstanceAs (Decidable (u ∈ op.claims db.wallets → u ∉ gather WalletCall.claims ts))
  | .clear _ => .isTrue trivial
  | .locking .. => .isTrue trivial
  | .save .. => .isTrue trivial
  | .write .. => .isTrue trivial
  | .commit .. => .isTrue trivial
  | .rollback .. => .isTrue trivial

/-! ## What the calls in flight rest on -/

/-- The primary wallets of `u` are among `ids`. -/
def Covers (u : Uuid) (ws : WalletTable) (ids : List Uuid) : Prop :=
  ∀ w ∈ ws.rows, w.userId = u → w.isPrimary = true → w.id ∈ ids

/-- An entity that is saved was read as a wallet of its user. -/
def Aim.Owned (ws : WalletTable) : Aim → Prop
  | .insert .. => True
  | .save w _ => ∃ row ∈ ws.rows, row.id = w.id ∧ row.userId = w.userId

/-- What a transaction has cleared, and its own row, are all primary wallets of its user. -/
def Aim.Clears (u : Uuid) (ws : WalletTable) (aim : Aim) (cleared : List Uuid) : Prop :=
  aim.isPrimary = true → aim.userId = u → Covers u ws (cleared ++ aim.own)

/-- A change stores what the transaction is after. -/
def Change.Fits (aim : Aim) : Change → Prop
  | .insert row => aim.own = [] ∧ row.userId = aim.userId ∧ row.isPrimary = aim.isPrimary
  | .set id diff => aim.own = [id] ∧ ∀ b ∈ diff.isPrimary, b = aim.isPrimary

def WalletCall.Ready (u : Uuid) (ws : WalletTable) : WalletCall → Prop
  | .start _ => True
  | .clear aim => aim.isPrimary = true ∧ aim.Owned ws
  | .locking aim targets cleared => aim.isPrimary = true ∧ aim.Owned ws ∧
      (aim.userId = u → Covers u ws (targets ++ cleared))
  | .save aim cleared => aim.Owned ws ∧ aim.Clears u ws cleared
  | .write w returned diff cleared => (Aim.save w returned).Owned ws ∧
      (Aim.save w returned).Clears u ws cleared ∧ ∀ b ∈ diff.isPrimary, b = w.isPrimary
  | .commit aim cleared _ change => aim.Owned ws ∧ aim.Clears u ws cleared ∧ change.Fits aim
  | .rollback _ _ => True

section Ready

variable {u : Uuid} {ws ws' : WalletTable} {call : WalletCall} {aim : Aim}

/-- Every row is still there with its user. -/
def Persists (ws ws' : WalletTable) : Prop :=
  ∀ w ∈ ws.rows, ∃ w' ∈ ws'.rows, w'.id = w.id ∧ w'.userId = w.userId

/-- No wallet of `u` has become primary. -/
def Shrinks (u : Uuid) (ws ws' : WalletTable) : Prop :=
  ∀ w' ∈ ws'.rows, w'.userId = u → w'.isPrimary = true →
    ∃ w ∈ ws.rows, w.id = w'.id ∧ w.userId = u ∧ w.isPrimary = true

theorem Covers.shrink {ids : List Uuid} (h : Covers u ws ids) (hs : Shrinks u ws ws') :
    Covers u ws' ids := by
  intro w' hw' hu hp
  obtain ⟨w, hw, hid, hwu, hwp⟩ := hs w' hw' hu hp
  rw [← hid]
  exact h w hw hwu hwp

theorem OnePrimary.shrink (h : OnePrimary u ws) (hs : Shrinks u ws ws') : OnePrimary u ws' := by
  intro w hw w' hw' hu hu' hp hp'
  obtain ⟨v, hv, hid, hvu, hvp⟩ := hs w hw hu hp
  obtain ⟨v', hv', hid', hvu', hvp'⟩ := hs w' hw' hu' hp'
  have hsame := h v hv v' hv' hvu hvu' hvp hvp'
  exact List.inj_on_of_nodup_map ws'.ids hw hw' (by rw [← hid, ← hid', hsame])

theorem Aim.Owned.persist (h : aim.Owned ws) (hp : Persists ws ws') : aim.Owned ws' := by
  cases aim with
  | insert => trivial
  | save w r =>
    obtain ⟨row, hrow, hid, huser⟩ := h
    obtain ⟨row', hrow', hid', huser'⟩ := hp row hrow
    exact ⟨row', hrow', hid'.trans hid, huser'.trans huser⟩

theorem Aim.mem_claims : u ∈ aim.claims ↔ aim.isPrimary = true ∧ aim.userId = u := by
  unfold Aim.claims
  split
  · rename_i hp
    simp [hp, eq_comm]
  · rename_i hp
    simp [hp]

theorem Aim.Clears.mono {cleared : List Uuid} (h : aim.Clears u ws cleared)
    (hs : Shrinks u ws ws' ∨ u ∉ aim.claims) : aim.Clears u ws' cleared := by
  intro hp hu
  rcases hs with hs | hs
  · exact (h hp hu).shrink hs
  · exact absurd (Aim.mem_claims.mpr ⟨hp, hu⟩) hs

/-- What a call rests on is not touched by changes that make no wallet of `u` primary, or that meet no
call on a primary wallet of `u`. -/
theorem WalletCall.Ready.mono (h : call.Ready u ws) (hp : Persists ws ws')
    (hs : Shrinks u ws ws' ∨ u ∉ call.claims) : call.Ready u ws' := by
  cases call with
  | start op => trivial
  | clear aim => exact ⟨h.1, h.2.persist hp⟩
  | locking aim targets cleared =>
    refine ⟨h.1, h.2.1.persist hp, fun hu => ?_⟩
    rcases hs with hs | hs
    · exact (h.2.2 hu).shrink hs
    · exact absurd (Aim.mem_claims.mpr ⟨h.1, hu⟩) hs
  | save aim cleared => exact ⟨h.1.persist hp, h.2.mono hs⟩
  | write w returned diff cleared => exact ⟨h.1.persist hp, h.2.1.mono hs, h.2.2⟩
  | commit aim cleared held change => exact ⟨h.1.persist hp, h.2.1.mono hs, h.2.2⟩
  | rollback held e => trivial

end Ready

/-! ## What one step does -/

section Step

variable {cipher : Cipher} {u : Uuid} {env : WalletEnv} {call : WalletCall} {db : WalletDb}

theorem clear_primary {ws : WalletTable} {cleared : List Uuid} {w' : Wallet}
    (h : w' ∈ (ws.clear cleared).rows) (hp : w'.isPrimary = true) :
    w' ∈ ws.rows ∧ w'.id ∉ cleared := by
  obtain ⟨w, hw, rfl⟩ := List.mem_map.mp h
  unfold WalletTable.clearRow at hp ⊢
  split
  · rename_i hc
    rw [if_pos hc] at hp
    cases hp
  · rename_i hc
    exact ⟨hw, hc⟩

/-- The row a change is about. -/
def Change.target : Change → Uuid
  | .insert row => row.id
  | .set id _ => id

/-- In the table a transaction leaves, each primary wallet was one before and was not cleared, or it is
the one the transaction is after. -/
theorem store_primary {ws ws' : WalletTable} {aim : Aim} {cleared : List Uuid} {change : Change}
    (hs : ws.store cleared change = some ws') (hfits : change.Fits aim) (howned : aim.Owned ws)
    {w' : Wallet} (h : w' ∈ ws'.rows) (hp : w'.isPrimary = true) :
    (∃ w ∈ ws.rows, w.id = w'.id ∧ w.userId = w'.userId ∧ w.isPrimary = true ∧ w.id ∉ cleared) ∨
      aim.isPrimary = true ∧ aim.userId = w'.userId ∧ w'.id = change.target := by
  cases change with
  | insert row =>
    simp only [WalletTable.store] at hs
    repeat' split at hs
    all_goals cases hs
    rcases List.mem_append.mp h with h | h
    · obtain ⟨hw, hc⟩ := clear_primary h hp
      exact .inl ⟨w', hw, rfl, rfl, hp, hc⟩
    · rw [List.mem_singleton.mp h] at hp ⊢
      exact .inr ⟨hfits.2.2 ▸ hp, hfits.2.1.symm, rfl⟩
  | set id diff =>
    cases hs
    obtain ⟨w, hw, rfl⟩ := List.mem_map.mp h
    rw [WalletTable.setRow_userId, WalletTable.setRow_id]
    unfold WalletTable.setRow at hp
    split at hp
    · rename_i hid
      cases hd : diff.isPrimary with
      | none =>
        have hp : w.isPrimary = true := by simpa [Diff.apply, hd] using hp
        obtain ⟨hw', hc⟩ := clear_primary hw hp
        exact .inl ⟨w, hw', rfl, rfl, hp, hc⟩
      | some b =>
        -- the column is set to what the entity holds
        have hb : b = true := by simpa [Diff.apply, hd] using hp
        have haim : aim.isPrimary = true := by rw [← hfits.2 b hd, hb]
        refine .inr ⟨haim, ?_, hid⟩
        cases aim with
        | insert => cases hfits.1
        | save entity returned =>
          obtain ⟨row, hrow, hrowid, huser⟩ := howned
          have hown : entity.id = id := List.singleton_inj.mp hfits.1
          obtain ⟨v, hv, hvw⟩ := List.mem_map.mp hw
          have hvid : v.id = w.id := by rw [← hvw, WalletTable.clearRow_id]
          have hvuser : v.userId = w.userId := by rw [← hvw, WalletTable.clearRow_userId]
          have hsame : row = v := List.inj_on_of_nodup_map ws.ids hrow hv (by
            rw [hrowid, hown, hvid, hid])
          rw [← hvuser, ← hsame, huser]
          rfl
    · obtain ⟨hw', hc⟩ := clear_primary hw hp
      exact .inl ⟨w, hw', rfl, rfl, hp, hc⟩

theorem store_persists {ws ws' : WalletTable} {cleared : List Uuid} {change : Change}
    (hs : ws.store cleared change = some ws') : Persists ws ws' := by
  intro w hw
  have hclear : WalletTable.clearRow cleared w ∈ (ws.clear cleared).rows := List.mem_map_of_mem hw
  cases change with
  | insert row =>
    simp only [WalletTable.store] at hs
    repeat' split at hs
    all_goals cases hs
    exact ⟨_, List.mem_append_left _ hclear, by simp, by simp⟩
  | set id diff =>
    cases hs
    exact ⟨_, List.mem_map_of_mem hclear, by simp, by simp⟩

theorem store_shrinks {ws ws' : WalletTable} {aim : Aim} {cleared : List Uuid} {change : Change}
    (hs : ws.store cleared change = some ws') (hfits : change.Fits aim) (howned : aim.Owned ws)
    (hu : u ∉ aim.claims) : Shrinks u ws ws' := by
  intro w' hw' hwu hp
  rcases store_primary hs hfits howned hw' hp with ⟨w, hw, hid, huser, hwp, -⟩ | ⟨haim, huser, -⟩
  · exact ⟨w, hw, hid, huser.trans hwu, hwp⟩
  · exact absurd (Aim.mem_claims.mpr ⟨haim, huser.trans hwu⟩) hu

theorem store_onePrimary {ws ws' : WalletTable} {aim : Aim} {cleared : List Uuid} {change : Change}
    (hs : ws.store cleared change = some ws') (hfits : change.Fits aim) (howned : aim.Owned ws)
    (hclears : aim.Clears u ws cleared) (hu : u ∈ aim.claims) : OnePrimary u ws' := by
  obtain ⟨haim, huser⟩ := Aim.mem_claims.mp hu
  have hcovers := hclears haim huser
  have htarget : ∀ w' ∈ ws'.rows, w'.userId = u → w'.isPrimary = true → w'.id = change.target := by
    intro w' hw' hwu hp
    rcases store_primary hs hfits howned hw' hp with ⟨w, hw, hid, hwuser, hwp, hc⟩ | ⟨-, -, ht⟩
    · rw [← hid]
      rcases List.mem_append.mp (hcovers w hw (hwuser.trans hwu) hwp) with h | h
      · exact absurd h hc
      · cases change with
        | insert row =>
          rw [hfits.1] at h
          cases h
        | set id diff =>
          rw [hfits.1] at h
          exact List.mem_singleton.mp h
    · exact ht
  intro w hw w' hw' hwu hwu' hp hp'
  exact List.inj_on_of_nodup_map ws'.ids hw hw'
    ((htarget w hw hwu hp).trans (htarget w' hw' hwu' hp').symm)

/-- Only a commit writes. -/
theorem advance_wallets (cipher : Cipher) (env : WalletEnv) (call : WalletCall) (db : WalletDb) :
    (advance cipher env call db).1.wallets = db.wallets ∨
      ∃ aim cleared held change r, call = .commit aim cleared held change ∧
        db.wallets.store cleared change = some (advance cipher env call db).1.wallets ∧
        (advance cipher env call db).2 = .done r := by
  cases call with
  | commit aim cleared held change =>
    cases hs : (if env.fault then none else db.wallets.store cleared change) with
    | none =>
      refine .inl ?_
      simp only [advance, hs]
      rfl
    | some ws =>
      refine .inr ⟨aim, cleared, held, change, .ok (change.saved aim), rfl, ?_, ?_⟩
      · simp only [advance, hs]
        split at hs
        · cases hs
        · exact hs
      · simp only [advance, hs]
  | start op =>
    refine .inl ?_
    cases op <;> simp only [advance] <;> repeat' split
    all_goals rfl
  | clear aim =>
    simp only [advance]
    split <;> exact .inl rfl
  | locking aim targets cleared =>
    refine .inl ?_
    cases targets with
    | nil => rfl
    | cons id targets =>
      simp only [advance]
      repeat' split
      all_goals rfl
  | save aim cleared =>
    refine .inl ?_
    cases aim <;> simp only [advance] <;> repeat' split
    all_goals rfl
  | write w returned diff cleared =>
    refine .inl ?_
    simp only [advance]
    repeat' split
    all_goals rfl
  | rollback held e => exact .inl rfl

theorem findOne_ok {ws : WalletTable} {id userId : Uuid} {w : Wallet} (h : ws.findOne id userId = .ok w) :
    w ∈ ws.rows ∧ w.userId = userId := by
  unfold WalletTable.findOne at h
  split at h
  · cases h
  · rename_i row hrow
    split at h
    · rename_i hu
      cases h
      exact ⟨mem_of_lookup hrow, hu⟩
    · cases h

theorem mem_primaries {ws : WalletTable} {w : Wallet} (hw : w ∈ ws.rows) (hu : w.userId = u)
    (hp : w.isPrimary = true) : w.id ∈ ws.primaries u :=
  List.mem_map_of_mem (List.mem_filter.mpr ⟨hw, by simp [hu, hp]⟩)

theorem diff_fits (stored entity : Wallet) : ∀ b ∈ (Diff.of stored entity).isPrimary, b = entity.isPrimary := by
  intro b hb
  simp only [Diff.of] at hb
  split at hb
  · cases hb
  · cases hb
    rfl

theorem ready_start (hone : OnePrimary u db.wallets) {op : WalletOp} {call' : WalletCall}
    (h : (advance cipher env (.start op) db).2 = .running call') : call'.Ready u db.wallets := by
  cases op with
  | create userId dto =>
    simp only [advance] at h
    split at h
    · cases h
    · split at h
      · rename_i hp
        cases h
        exact ⟨hp, trivial⟩
      · rename_i hp
        cases h
        exact ⟨trivial, fun hp' => absurd hp' hp⟩
  | update id userId dto =>
    simp only [advance] at h
    split at h
    · cases h
    · split at h
      · cases h
      · rename_i w hw
        obtain ⟨hmem, huser⟩ := findOne_ok hw
        split at h
        · rename_i hp
          cases h
          exact ⟨by simp [Aim.isPrimary, UpdateWalletDto.assign, hp], w, hmem, rfl, rfl⟩
        · rename_i hp
          cases h
          refine ⟨⟨w, hmem, rfl, rfl⟩, fun hprim hu => ?_⟩
          -- the entity is primary only because the row it was read from is
          have hwp : w.isPrimary = true := by
            cases hd : dto.isPrimary with
            | none => simpa [Aim.isPrimary, UpdateWalletDto.assign, hd] using hprim
            | some b =>
              have : b = true := by simpa [Aim.isPrimary, UpdateWalletDto.assign, hd] using hprim
              rw [hd, this] at hp
              exact absurd rfl hp
          intro v hv hvu hvp
          rw [hone v hv w hmem hvu hu hvp hwp]
          exact List.mem_singleton.mpr rfl
  | remove id userId =>
    simp only [advance] at h
    split at h
    · cases h
    · split at h
      · cases h
      · rename_i w hw
        split at h
        · cases h
        · rename_i hp
          cases h
          exact ⟨⟨w, (findOne_ok hw).1, rfl, rfl⟩, fun hp' => absurd hp' hp⟩

theorem ready_locking {aim : Aim} {targets cleared : List Uuid}
    (hready : (WalletCall.locking aim targets cleared).Ready u db.wallets) {call' : WalletCall}
    (h : (advance cipher env (.locking aim targets cleared) db).2 = .running call') :
    call'.Ready u db.wallets := by
  obtain ⟨hprim, howned, hcovers⟩ := hready
  cases targets with
  | nil =>
    cases h
    exact ⟨howned, fun _ hu w hw hwu hwp => List.mem_append_left _ (hcovers hu w hw hwu hwp)⟩
  | cons id targets =>
    simp only [advance] at h
    split at h
    · cases h
      trivial
    · split at h
      · cases h
        exact ⟨hprim, howned, hcovers⟩
      · split at h
        · cases h
          refine ⟨hprim, howned, fun hu w hw hwu hwp => ?_⟩
          have := hcovers hu w hw hwu hwp
          simp only [List.cons_append, List.mem_cons, List.mem_append] at this ⊢
          exact this.elim (fun h => .inr (.inl h)) (fun h => h.imp (fun h => h) .inr)
        · rename_i hgone
          cases h
          refine ⟨hprim, howned, fun hu w hw hwu hwp => ?_⟩
          have := hcovers hu w hw hwu hwp
          rcases List.mem_cons.mp this with hid | h
          · rw [hu, ← hid] at hgone
            exact absurd (mem_primaries hw hwu hwp) hgone
          · exact h

theorem ready_save {aim : Aim} {cleared : List Uuid}
    (hready : (WalletCall.save aim cleared).Ready u db.wallets) {call' : WalletCall}
    (h : (advance cipher env (.save aim cleared) db).2 = .running call') : call'.Ready u db.wallets := by
  obtain ⟨howned, hclears⟩ := hready
  cases aim with
  | insert userId publicKey secret label isPrimary =>
    simp only [advance] at h
    split at h
    · cases h
      trivial
    · cases h
      exact ⟨howned, hclears, rfl, rfl, rfl⟩
  | save w returned =>
    simp only [advance] at h
    split at h
    · cases h
      trivial
    · split at h
      · cases h
        trivial
      · split at h
        · cases h
          exact ⟨howned, hclears, rfl, diff_fits _ w⟩
        · cases h
          exact ⟨howned, hclears, diff_fits _ w⟩

theorem ready_advance (hone : OnePrimary u db.wallets) (hready : call.Ready u db.wallets)
    {call' : WalletCall} (h : (advance cipher env call db).2 = .running call') : call'.Ready u db.wallets := by
  cases call with
  | start op => exact ready_start hone h
  | clear aim =>
    simp only [advance] at h
    split at h
    · cases h
      trivial
    · cases h
      refine ⟨hready.1, hready.2, fun hu w hw hwu hwp => ?_⟩
      rw [List.append_nil, hu]
      exact mem_primaries hw hwu hwp
  | locking aim targets cleared => exact ready_locking hready h
  | save aim cleared => exact ready_save hready h
  | write w returned diff cleared =>
    obtain ⟨howned, hclears, hfits⟩ := hready
    simp only [advance] at h
    split at h
    · cases h
      trivial
    · split at h
      · cases h
        exact ⟨howned, hclears, rfl, hfits⟩
      · split at h
        · cases h
          exact ⟨howned, hclears, hfits⟩
        · cases h
          exact ⟨howned, hclears, rfl, hfits⟩
  | commit aim cleared held change =>
    simp only [advance] at h
    split at h <;> cases h
  | rollback held e => cases h

/-- What the next step of a call can leave it after. -/
def WalletCall.next (ws : WalletTable) : WalletCall → List Uuid
  | .start op => op.claims ws
  | call => call.claims

theorem claims_advance (cipher : Cipher) (env : WalletEnv) (call : WalletCall) (db : WalletDb) :
    ((advance cipher env call db).2.gather WalletCall.claims).Sublist (call.next db.wallets) := by
  cases call with
  | start op =>
    cases op with
    | create userId dto =>
      simp only [advance, WalletCall.next, WalletOp.claims]
      split
      · exact List.nil_sublist _
      · split
        · rename_i hp
          simp [Task.gather, WalletCall.claims, Aim.claims, Aim.isPrimary, Aim.userId, hp]
        · rename_i hp
          simp [Task.gather, WalletCall.claims, Aim.claims, Aim.isPrimary, hp]
    | update id userId dto =>
      simp only [advance, WalletCall.next, WalletOp.claims]
      split
      · exact List.nil_sublist _
      · cases hw : db.wallets.findOne id userId with
        | error e => exact List.nil_sublist _
        | ok w =>
          have huser := (findOne_ok hw).2
          have hclaims : (Aim.save (dto.assign w) true).claims =
              if dto.isPrimary.getD w.isPrimary then [userId] else [] := by
            rw [← huser]
            rfl
          simp only
          split <;> simp [Task.gather, WalletCall.claims, hclaims]
    | remove id userId =>
      simp only [advance]
      split
      · exact List.nil_sublist _
      · split
        · exact List.nil_sublist _
        · split
          · exact List.nil_sublist _
          · rename_i hp
            simp [Task.gather, WalletCall.claims, Aim.claims, Aim.isPrimary, hp]
  | clear aim =>
    simp only [advance]
    split
    · exact List.nil_sublist _
    · exact List.Sublist.refl _
  | locking aim targets cleared =>
    cases targets with
    | nil => exact List.Sublist.refl _
    | cons id targets =>
      simp only [advance]
      repeat' split
      · exact List.nil_sublist _
      all_goals exact List.Sublist.refl _
  | save aim cleared =>
    cases aim with
    | insert =>
      simp only [advance]
      split
      · exact List.nil_sublist _
      · exact List.Sublist.refl _
    | save w returned =>
      simp only [advance]
      repeat' split
      · exact List.nil_sublist _
      · exact List.nil_sublist _
      all_goals exact List.Sublist.refl _
  | write w returned diff cleared =>
    simp only [advance]
    repeat' split
    · exact List.nil_sublist _
    all_goals exact List.Sublist.refl _
  | commit aim cleared held change =>
    simp only [advance]
    split <;> exact List.nil_sublist _
  | rollback held e => exact List.nil_sublist _

end Step

/-! ## Runs -/

/-- One primary wallet at most, one call at most that is after one, and every call in flight ready. -/
structure Sound (u : Uuid) (db : WalletDb) (ts : List WalletTask) : Prop where
  one : OnePrimary u db.wallets
  single : (gather WalletCall.claims ts).count u ≤ 1
  ready : AllRunning (WalletCall.Ready u db.wallets) ts

section Run

variable {cipher : Cipher} {u : Uuid} {env : WalletEnv} {call : WalletCall} {db : WalletDb} {ts pre post : List WalletTask}

theorem WalletOp.count_claims_le (op : WalletOp) (ws : WalletTable) : (op.claims ws).count u ≤ 1 := by
  have hif : ∀ (b : Bool) (v : Uuid), (if b then [v] else []).count u ≤ 1 := by
    intro b v
    split
    · rw [List.count_singleton]
      split <;> omega
    · simp
  cases op with
  | create v dto => exact hif _ v
  | update id v dto =>
    simp only [WalletOp.claims]
    split
    · exact hif _ v
    · simp
  | remove id v => exact Nat.zero_le 1

variable (cipher) in
theorem single_advance (h : (gather WalletCall.claims (pre ++ .running call :: post)).count u ≤ 1)
    (halone : Alone u env call db (pre ++ .running call :: post)) :
    (gather WalletCall.claims (pre ++ (advance cipher env call db).2 :: post)).count u ≤ 1 := by
  have hsub := (claims_advance cipher env call db).count_le u
  rw [gather_split, List.count_append, List.count_append] at h ⊢
  simp only [Task.gather] at h
  cases call with
  | start op =>
    by_cases hu : u ∈ op.claims db.wallets
    · have hfree := List.count_eq_zero_of_not_mem (halone hu)
      rw [gather_split, List.count_append, List.count_append] at hfree
      have hone := WalletOp.count_claims_le (u := u) op db.wallets
      simp only [WalletCall.next] at hsub
      omega
    · rw [WalletCall.next, List.count_eq_zero_of_not_mem hu] at hsub
      omega
  | clear aim => simp only [WalletCall.next] at hsub; omega
  | locking aim targets cleared => simp only [WalletCall.next] at hsub; omega
  | save aim cleared => simp only [WalletCall.next] at hsub; omega
  | write w returned diff cleared => simp only [WalletCall.next] at hsub; omega
  | commit aim cleared held change => simp only [WalletCall.next] at hsub; omega
  | rollback held e => simp only [WalletCall.next] at hsub; omega

theorem not_claims_of_single (h : (gather WalletCall.claims (pre ++ .running call :: post)).count u ≤ 1)
    (hu : u ∈ call.claims) {k : WalletCall} (hk : .running k ∈ pre ∨ .running k ∈ post) :
    u ∉ k.claims := by
  intro huk
  have hcall : 0 < call.claims.count u := List.count_pos_iff.mpr hu
  rw [gather_split, List.count_append, List.count_append] at h
  simp only [Task.gather] at h
  rcases hk with hk | hk
  · have : 0 < (gather WalletCall.claims pre).count u :=
      List.count_pos_iff.mpr (List.mem_flatMap.mpr ⟨_, hk, huk⟩)
    omega
  · have : 0 < (gather WalletCall.claims post).count u :=
      List.count_pos_iff.mpr (List.mem_flatMap.mpr ⟨_, hk, huk⟩)
    omega

theorem Sound.advance (h : Sound u db (pre ++ .running call :: post))
    (halone : Alone u env call db (pre ++ .running call :: post)) :
    Sound u (advance cipher env call db).1 (pre ++ (advance cipher env call db).2 :: post) := by
  have hsingle := single_advance cipher h.single halone
  obtain hsame | ⟨aim, cleared, held, change, r, rfl, hstore, hdone⟩ := advance_wallets cipher env call db
  · refine ⟨hsame ▸ h.one, hsingle, ?_⟩
    rw [hsame]
    exact h.ready.replace fun k' hk' => ready_advance h.one h.ready.here hk'
  · obtain ⟨howned, hclears, hfits⟩ := h.ready.here
    have hpersist := store_persists hstore
    have hothers : ∀ k, .running k ∈ pre ∨ .running k ∈ post →
        k.Ready u (Wallets.advance cipher env (.commit aim cleared held change) db).1.wallets := by
      intro k hk
      have hready := h.ready k (by
        rw [List.mem_append, List.mem_cons]
        exact hk.imp (fun h => h) .inr)
      refine hready.mono hpersist ?_
      by_cases hu : u ∈ aim.claims
      · exact .inr (not_claims_of_single h.single hu hk)
      · exact .inl (store_shrinks hstore hfits howned hu)
    refine ⟨?_, hsingle, ?_⟩
    · by_cases hu : u ∈ aim.claims
      · exact store_onePrimary hstore hfits howned hclears hu
      · exact h.one.shrink (store_shrinks hstore hfits howned hu)
    · intro k hk
      rw [hdone, List.mem_append, List.mem_cons] at hk
      rcases hk with hk | hk | hk
      · exact hothers k (.inl hk)
      · cases hk
      · exact hothers k (.inr hk)

theorem Sound.spawn (h : Sound u db ts) (op : WalletOp) :
    Sound u db (ts ++ [Task.running (WalletCall.start op)]) where
  one := h.one
  single := by
    rw [gather_spawn rfl]
    exact h.single
  ready := h.ready.spawn trivial

end Run

/-- From a table in which the user has one primary wallet at most, a run in which no call that is to
leave a wallet of the user primary begins while another one is in flight has one primary wallet at
most in every state. -/
theorem one_primary_of_alone (cipher : Cipher) (u : Uuid) (ws : WalletTable) (hone : OnePrimary u ws)
    (acts : List (Act WalletEnv WalletOp))
    (halone : Along (walletProc cipher).step (Meets (fun _ => True) (Alone u)) (Conf.init ⟨ws, []⟩) acts) :
    Always (walletProc cipher).step (fun c => OnePrimary u c.shared.wallets) (Conf.init ⟨ws, []⟩) acts :=
  always_of_inv
    (I := fun c : Conf WalletDb WalletCall (Except HttpError (Option Wallet)) =>
      Sound u c.shared c.tasks)
    (fun _ h => h.one)
    (fun c a hI hG => step_inv (walletProc cipher) (fun _ _ op _ h => h.spawn op)
      (fun _ _ _ _ _ hG h => h.advance hG) c a hI hG)
    ⟨hone, Nat.zero_le 1, .nil⟩ halone

/-! ## Two first wallets -/

def noWallets : WalletTable := ⟨[], List.nodup_nil⟩

def noCipher : Cipher := ⟨fun _ _ => ([], []), fun _ _ _ => none⟩

def zeroIv : Iv := ⟨List.replicate ivLength ⟨0, by decide⟩, List.length_replicate⟩

def draw (n : Nat) (publicKey : String) : WalletEnv := ⟨false, n, publicKey, "S", zeroIv⟩

/-- Two wallets made one after the other, then the second one made primary. -/
def inTurn : List (Act WalletEnv WalletOp) :=
  [.spawn (.create 5 ⟨none, none⟩), .sched 0 (draw 0 "GA"), .sched 0 (draw 0 "GA"), .sched 0 (draw 0 "GA"),
    .sched 0 (draw 1 "GA"), .sched 0 (draw 0 "GA"),
    .spawn (.create 5 ⟨none, none⟩), .sched 1 (draw 0 "GB"), .sched 1 (draw 2 "GB"), .sched 1 (draw 0 "GB"),
    .spawn (.update 2 5 ⟨none, none, some true⟩), .sched 2 (draw 0 ""), .sched 2 (draw 0 ""),
    .sched 2 (draw 0 ""), .sched 2 (draw 0 ""), .sched 2 (draw 0 ""), .sched 2 (draw 0 ""), .sched 2 (draw 0 "")]

theorem one_primary_inTurn :
    (run (walletProc noCipher).step (Conf.init ⟨noWallets, []⟩) inTurn).shared.wallets.primaries 5 = [2] ∧
      Always (walletProc noCipher).step (fun c => OnePrimary 5 c.shared.wallets) (Conf.init ⟨noWallets, []⟩)
        inTurn :=
  ⟨by decide +kernel, one_primary_of_alone noCipher 5 noWallets (by decide) inTurn (by decide +kernel)⟩

/-- The first two wallets of a user, made at the same time: both calls count no wallet, clear none and
commit. -/
def atOnce : List (Act WalletEnv WalletOp) :=
  [.spawn (.create 5 ⟨none, none⟩), .spawn (.create 5 ⟨none, none⟩), .sched 0 (draw 0 "GA"),
    .sched 1 (draw 0 "GB"), .sched 0 (draw 0 ""), .sched 1 (draw 0 ""), .sched 0 (draw 0 ""),
    .sched 1 (draw 0 ""), .sched 0 (draw 1 ""), .sched 1 (draw 2 ""), .sched 0 (draw 0 ""),
    .sched 1 (draw 0 "")]

theorem two_first_wallets :
    (run (walletProc noCipher).step (Conf.init ⟨noWallets, []⟩) atOnce).Quiet ∧
      ¬ OnePrimary 5 (run (walletProc noCipher).step (Conf.init ⟨noWallets, []⟩) atOnce).shared.wallets := by
  decide +kernel

end Wallets
end TradeCore
