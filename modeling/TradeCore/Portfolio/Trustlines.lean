import TradeCore.Common
import TradeCore.Lib.DecimalText
import TradeCore.Lib.Run
import TradeCore.Lib.Table

/-!
# TradeCore.Portfolio.Trustlines

The assets and the trust lines (`AssetsService`, `TrustlinesService`). A balance is a column
`numeric(30, 7)` and comes back as a text with seven decimals.

* `updateBalance_fails`: no balance is ever updated, since `BigInt` does not read such a text.
* `Sound.run`: after every run each trust line has the balance it was created with, zero, and each
  asset is native when it has no issuer.
-/

namespace TradeCore
namespace Portfolio

open Lib

structure Asset where
  id : Uuid
  code : String
  issuer : Option String
  isNative : Bool
  totalSupply : SqlNumeric 30 7
  deriving DecidableEq

structure TrustLine where
  id : Uuid
  user : Uuid
  asset : Uuid
  balance : SqlNumeric 30 7
  limit : SqlNumeric 30 7
  deriving DecidableEq

structure IndexAssetDto where
  code : String
  issuer : Option String
  deriving DecidableEq, Repr

structure CreateTrustlineDto where
  user : Uuid
  asset : Uuid
  limit : String
  deriving DecidableEq, Repr

structure Db where
  assets : List Asset
  trustlines : List TrustLine
  nextId : Uuid
  deriving DecidableEq

def Db.empty : Db := ⟨[], [], 1⟩

theorem bound_zero : (0 : Int).natAbs < 10 ^ 30 := by decide

def zero : SqlNumeric 30 7 := ⟨0, bound_zero⟩

/-! ## Assets -/

/-- `findOne({ where: { code, issuer } })`, with `IsNull()` for no issuer. -/
def Db.assetOf (db : Db) (code : String) (issuer : Option String) : Option Asset :=
  db.assets.find? fun a => a.code == code && a.issuer == issuer

def upsert (db : Db) (dto : IndexAssetDto) : Db :=
  match db.assetOf dto.code dto.issuer with
  | some asset =>
    { db with assets := Lib.upsert (·.id) { asset with isNative := dto.issuer.isNone } db.assets }
  | none =>
    let asset : Asset :=
      { id := db.nextId
        code := dto.code
        issuer := dto.issuer
        isNative := dto.issuer.isNone
        totalSupply := zero }
    { db with assets := db.assets ++ [asset], nextId := db.nextId + 1 }

/-! ## Trust lines -/

/-- `users` are the users there are. -/
def create (db : Db) (users : List Uuid) (dto : CreateTrustlineDto) : Db × Except HttpError TrustLine :=
  if dto.user ∉ users then (db, .error (.notFound s!"User {dto.user} not found"))
  else if dto.asset ∉ db.assets.map (·.id) then
    (db, .error (.notFound s!"Asset {dto.asset} not found"))
  else
    match SqlNumeric.ofText? 30 7 dto.limit.toList with
    | none => (db, .error databaseError)
    | some limit =>
      let trustline : TrustLine := ⟨db.nextId, dto.user, dto.asset, zero, limit⟩
      ({ db with trustlines := db.trustlines ++ [trustline], nextId := db.nextId + 1 }, .ok trustline)

def findOne (db : Db) (id : Uuid) : Except HttpError TrustLine :=
  match lookup (·.id) id db.trustlines with
  | some trustline => .ok trustline
  | none => .error (.notFound s!"Trustline {id} not found")

def remove (db : Db) (id : Uuid) : Db × Except HttpError Unit :=
  match findOne db id with
  | .error e => (db, .error e)
  | .ok _ => ({ db with trustlines := db.trustlines.filter fun t => t.id ≠ id }, .ok ())

def syntaxError : HttpError := .internal "SyntaxError: Cannot convert to a BigInt"

/-- The balance after a change, in the source's checks. -/
def changedBalance (trustline : TrustLine) (amount : String) : Except HttpError (SqlNumeric 30 7) :=
  match bigInt? trustline.balance.text, bigInt? amount.toList with
  | some balance, some change =>
    let newBalance := balance + change
    if newBalance < 0 then .error (.badRequest "Insufficient balance")
    else
      match bigInt? trustline.limit.text with
      | none => .error syntaxError
      | some limit =>
        if limit < newBalance then .error (.badRequest "Trustline limit exceeded")
        else
          match SqlNumeric.ofText? 30 7 (toString newBalance).toList with
          | none => .error databaseError
          | some balance => .ok balance
  | _, _ => .error syntaxError

def updateBalance (db : Db) (id : Uuid) (amount : String) : Db × Except HttpError TrustLine :=
  match findOne db id with
  | .error e => (db, .error e)
  | .ok trustline =>
    match changedBalance trustline amount with
    | .error e => (db, .error e)
    | .ok balance =>
      let saved := { trustline with balance }
      ({ db with trustlines := Lib.upsert (·.id) saved db.trustlines }, .ok saved)

/-! ## Runs -/

inductive AssetOp where
  | upsert (dto : IndexAssetDto)
  | create (users : List Uuid) (dto : CreateTrustlineDto)
  | remove (id : Uuid)
  | updateBalance (id : Uuid) (amount : String)
  deriving DecidableEq, Repr

def step (db : Db) : AssetOp → Db
  | .upsert dto => upsert db dto
  | .create users dto => (create db users dto).1
  | .remove id => (remove db id).1
  | .updateBalance id amount => (updateBalance db id amount).1

/-! ## A balance is no `BigInt` -/

theorem natOfDigits_none {b : Nat} {s : List Char} {c : Char} (hc : c ∈ s) (hno : digitVal c = none)
    (acc : Nat) : natOfDigits b acc s = none := by
  induction s generalizing acc with
  | nil => cases hc
  | cons d s ih =>
    unfold natOfDigits
    rcases List.mem_cons.mp hc with rfl | hc
    · rw [hno]
    · split
      · split
        · exact ih hc _
        · rfl
      · rfl

theorem natOfText_none {b : Nat} {s : List Char} (hs : '.' ∈ s) : natOfText b s = none := by
  unfold natOfText
  split
  · rfl
  · exact natOfDigits_none hs (by decide) 0

theorem mem_fixedText {f n : Nat} {c : Char} (hc : c ∈ fixedText f n) : c = '.' ∨ c.isDigit = true := by
  rw [fixedText, List.mem_append, List.mem_cons] at hc
  rcases hc with hc | hc | hc
  · exact .inr (isDigit_toDigits _ c hc)
  · exact .inl hc
  · exact .inr (isDigit_frac f _ c hc)

theorem literal?_fixedText (f n : Nat) : literal? (fixedText f n) = none := by
  have hdot : '.' ∈ fixedText f n := by simp [fixedText]
  unfold literal?
  split
  · rename_i c ds hds
    have hc : radix? c = none := by
      rcases mem_fixedText (f := f) (n := n) (c := c) (by rw [hds]; simp) with rfl | hc
      · decide
      · exact radix?_of_isDigit hc
    rw [hc]
    exact natOfText_none (hds ▸ hdot)
  · exact natOfText_none hdot

theorem bigInt?_text {p s : Nat} (x : SqlNumeric p s) : bigInt? x.text = none := by
  have hdot : '.' ∈ fixedText s x.units.natAbs := by simp [fixedText]
  obtain ⟨d, r, hfixed, hd⟩ := fixedText_cons s x.units.natAbs
  have hliteral := literal?_fixedText s x.units.natAbs
  rw [bigInt?, SqlNumeric.text, trim_of_not_white (not_white_signedText s x.units), signedText]
  by_cases hneg : x.units < 0
  · simp [if_pos hneg, natOfText_none hdot]
  · rw [if_neg hneg]
    rw [hfixed] at hliteral ⊢
    split
    · rename_i h
      cases h
    · rename_i h
      cases h
      cases hd
    · rename_i h
      cases h
      cases hd
    · rw [hliteral]
      rfl

theorem changedBalance_error (trustline : TrustLine) (amount : String) :
    changedBalance trustline amount = .error syntaxError := by
  simp [changedBalance, bigInt?_text]

/-- No call ever changes a balance. -/
theorem updateBalance_fails (db : Db) (id : Uuid) (amount : String) :
    (updateBalance db id amount).1 = db ∧ ∃ e, (updateBalance db id amount).2 = .error e := by
  unfold updateBalance
  split
  · rename_i e _
    exact ⟨rfl, e, rfl⟩
  · rw [changedBalance_error]
    exact ⟨rfl, _, rfl⟩

/-! ## After every run -/

structure Sound (db : Db) : Prop where
  distinct : (db.assets.map (·.id)).Nodup
  fresh : ∀ a ∈ db.assets, a.id < db.nextId
  native : ∀ a ∈ db.assets, a.isNative = a.issuer.isNone
  unfunded : ∀ t ∈ db.trustlines, t.balance = zero

theorem Sound.empty : Sound Db.empty where
  distinct := List.nodup_nil
  fresh := by simp [Db.empty]
  native := by simp [Db.empty]
  unfunded := by simp [Db.empty]

theorem assetOf_some {db : Db} {code : String} {issuer : Option String} {asset : Asset}
    (h : db.assetOf code issuer = some asset) :
    asset ∈ db.assets ∧ asset.code = code ∧ asset.issuer = issuer := by
  refine ⟨List.mem_of_find?_eq_some h, ?_⟩
  simpa using List.find?_some h

theorem assetOf_none {db : Db} {code : String} {issuer : Option String} (h : db.assetOf code issuer = none) :
    (code, issuer) ∉ db.assets.map fun a => (a.code, a.issuer) := by
  intro hmem
  obtain ⟨a, ha, hkey⟩ := List.mem_map.mp hmem
  simp only [Prod.mk.injEq] at hkey
  have := List.find?_eq_none.mp h a ha
  simp [hkey.1, hkey.2] at this

theorem Sound.upsert {db : Db} (h : Sound db) (dto : IndexAssetDto) : Sound (upsert db dto) := by
  unfold Portfolio.upsert
  split
  · rename_i asset hasset
    obtain ⟨hmem, hcode, hissuer⟩ := assetOf_some hasset
    refine ⟨nodup_upsert h.distinct, fun a ha => ?_, fun a ha => ?_, h.unfunded⟩
    · rcases mem_upsert ha with rfl | ha
      · exact h.fresh asset hmem
      · exact h.fresh a ha
    · rcases mem_upsert ha with rfl | ha
      · rw [hissuer]
      · exact h.native a ha
  · refine ⟨?_, fun a ha => ?_, fun a ha => ?_, h.unfunded⟩
    · rw [List.map_append, List.nodup_append]
      refine ⟨h.distinct, by simp, ?_⟩
      intro i hi j hj
      obtain ⟨a, ha, rfl⟩ := List.mem_map.mp hi
      simp only [List.map_cons, List.map_nil, List.mem_singleton] at hj
      rw [hj]
      exact Nat.ne_of_lt (h.fresh a ha)
    · rcases List.mem_append.mp ha with ha | ha
      · exact Nat.lt_succ_of_lt (h.fresh a ha)
      · rw [List.mem_singleton.mp ha]
        exact Nat.lt_succ_self _
    · rcases List.mem_append.mp ha with ha | ha
      · exact h.native a ha
      · rw [List.mem_singleton.mp ha]

theorem Sound.create {db : Db} (h : Sound db) (users : List Uuid) (dto : CreateTrustlineDto) :
    Sound (create db users dto).1 := by
  unfold Portfolio.create
  split
  · exact h
  · split
    · exact h
    · split
      · exact h
      · refine ⟨h.distinct, fun a ha => Nat.lt_succ_of_lt (h.fresh a ha), h.native, fun t ht => ?_⟩
        rcases List.mem_append.mp ht with ht | ht
        · exact h.unfunded t ht
        · rw [List.mem_singleton.mp ht]

theorem Sound.remove {db : Db} (h : Sound db) (id : Uuid) : Sound (remove db id).1 := by
  unfold Portfolio.remove
  split
  · exact h
  · exact ⟨h.distinct, h.fresh, h.native, fun t ht => h.unfunded t (List.mem_of_mem_filter ht)⟩

theorem Sound.step {db : Db} (h : Sound db) (op : AssetOp) : Sound (step db op) := by
  cases op with
  | upsert dto => exact h.upsert dto
  | create users dto => exact h.create users dto
  | remove id => exact h.remove id
  | updateBalance id amount =>
    simpa only [Portfolio.step, (updateBalance_fails db id amount).1] using h

theorem Sound.run (ops : List AssetOp) : Sound (run Portfolio.step Db.empty ops) :=
  run_inv (I := Sound) (G := fun _ _ => True) (fun _ op h _ => h.step op) Sound.empty along_true

/-- The code and the issuer that a call indexes. -/
def AssetOp.indexed : AssetOp → Option (String × Option String)
  | .upsert dto => some (dto.code, dto.issuer)
  | _ => none

def Db.indexed (db : Db) : List (String × Option String) := db.assets.map fun a => (a.code, a.issuer)

theorem mem_indexed_upsert {db : Db} (h : Sound db) (dto : IndexAssetDto) {k : String × Option String} :
    k ∈ (upsert db dto).indexed ↔ k ∈ db.indexed ∨ (dto.code, dto.issuer) = k := by
  unfold Portfolio.upsert Db.indexed
  split
  · rename_i asset hasset
    obtain ⟨hmem, hcode, hissuer⟩ := assetOf_some hasset
    have hsame : (Lib.upsert (·.id) { asset with isNative := dto.issuer.isNone } db.assets).map
        (fun a => (a.code, a.issuer)) = db.assets.map fun a => (a.code, a.issuer) := by
      refine map_upsert (List.mem_map.mpr ⟨asset, hmem, rfl⟩) fun a ha hid => ?_
      rw [List.inj_on_of_nodup_map h.distinct ha hmem hid]
    rw [hsame]
    refine ⟨.inl, fun hk => hk.elim id fun hk => ?_⟩
    rw [← hk, ← hcode, ← hissuer]
    exact List.mem_map.mpr ⟨asset, hmem, rfl⟩
  · simp [eq_comm]

theorem mem_indexed_step {db : Db} (h : Sound db) (op : AssetOp) {k : String × Option String} :
    k ∈ (step db op).indexed ↔ k ∈ db.indexed ∨ op.indexed = some k := by
  cases op with
  | upsert dto => simp [Portfolio.step, AssetOp.indexed, mem_indexed_upsert h]
  | create users dto =>
    have : (create db users dto).1.assets = db.assets := by
      unfold create
      split
      · rfl
      · split
        · rfl
        · split <;> rfl
    simp [Portfolio.step, AssetOp.indexed, Db.indexed, this]
  | remove id =>
    have : (remove db id).1.assets = db.assets := by
      unfold remove
      split <;> rfl
    simp [Portfolio.step, AssetOp.indexed, Db.indexed, this]
  | updateBalance id amount =>
    simp [Portfolio.step, AssetOp.indexed, (updateBalance_fails db id amount).1]

/-- The assets there are: those that a call of the run has indexed. -/
theorem mem_indexed_run {db : Db} (h : Sound db) (ops : List AssetOp) {k : String × Option String} :
    k ∈ (run step db ops).indexed ↔ k ∈ db.indexed ∨ ∃ op ∈ ops, op.indexed = some k := by
  induction ops generalizing db with
  | nil => simp [Lib.run]
  | cons op ops ih =>
    rw [Lib.run, ih (h.step op), mem_indexed_step h op]
    simp [or_assoc]

end Portfolio
end TradeCore
