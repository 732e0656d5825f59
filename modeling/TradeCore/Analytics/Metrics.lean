import Mathlib.Data.List.Nodup
import TradeCore.Common
import TradeCore.Lib.Interleave
import TradeCore.Lib.KeyedFold
import TradeCore.Lib.Rounding
import TradeCore.Analytics.Buckets

/-!
# TradeCore.Analytics.Metrics

The metrics table. `recordMetric` writes a value to five rows, one for each period, all at the same
time: every write (`upsertMetric`) finds its row and saves it with the value added, or inserts it. The
calls of any number of recordings are interleaved, one database statement a step.

* `value_partOf`: no value is added twice to a row, whatever the interleaving.
* `Undisturbed.value`: none is lost in the runs whose saves still find what was read (`Fresh`).
* `value_rollUp`: then a row is the sum of the rows of every smaller period.
* `processAggregationJob_failed`: the job that computes those sums again always fails on the first.
-/

namespace TradeCore
namespace Analytics
namespace Metrics

open Lib

inductive MetricType where
  | tradeVolume | tradeCount | tradeVolumeByPair | tradeVolumeByTrader | orderFlow | orderBookDepth
  | priceAction | priceVolatility | priceHigh | priceLow | priceOpen | priceClose
  | userActive | userNew | userRetention | userChurn | traderPnl | traderWinRate | traderSharpeRatio
  | poolTvl | poolUtilization | poolFeeRevenue | lpReturns | impermanentLoss
  | revenue | revenueFees | revenueSpreads | transactionFee | costGas | costOperations | profitability
  | systemLatency | blockchainGas | settlementTime | errorRate
  | anomalyWashTrading | anomalyManipulation | anomalySuspiciousVolume
  deriving DecidableEq, Repr

/-- What a recording carries along. -/
structure MetricTags where
  dimensions : Option (List (String × String))
  assetCode : Option String
  assetIssuer : Option String
  userId : Option String
  source : Option String
  deriving DecidableEq, Repr

structure AnalyticsMetric where
  id : Uuid
  metricType : MetricType
  aggregation : MetricAggregation
  timestamp : Instant
  value : ℚ
  tags : MetricTags
  deriving DecidableEq

abbrev MetricKey := MetricType × MetricAggregation × Instant

def AnalyticsMetric.key (r : AnalyticsMetric) : MetricKey := (r.metricType, r.aggregation, r.timestamp)

/-- The table with its primary key and its unique index. -/
structure MetricsTable where
  rows : List AnalyticsMetric
  ids : (rows.map AnalyticsMetric.id).Nodup
  keys : (rows.map AnalyticsMetric.key).Nodup

/-- A `numeric` column of scale 7. -/
def numeric (x : ℚ) : ℚ := roundTo 7 x

def aggregateValues (existing current : ℚ) : MetricType → ℚ
  | .tradeVolume | .tradeCount | .revenue | .transactionFee | .userNew | .blockchainGas =>
    existing + current
  | .systemLatency | .settlementTime => (existing + current) / 2
  | .errorRate => current
  | .userActive => existing
  | _ => current

/-- The arguments of `upsertMetric`; the `Date` of the bucket may be invalid. -/
structure UpsertMetric where
  metricType : MetricType
  aggregation : MetricAggregation
  timestamp : Option Instant
  value : ℚ
  tags : MetricTags

/-- A parameter left out or empty is not in the query. -/
def matchesTag (arg column : Option String) : Bool :=
  match arg with
  | none => true
  | some text => text = "" ∨ column = some text

def UpsertMetric.finds (u : UpsertMetric) (r : AnalyticsMetric) : Bool :=
  r.metricType = u.metricType ∧ r.aggregation = u.aggregation ∧ some r.timestamp = u.timestamp ∧
    matchesTag u.tags.assetCode r.tags.assetCode ∧ matchesTag u.tags.userId r.tags.userId

inductive UpsertCall where
  | find (u : UpsertMetric)
  | save (u : UpsertMetric) (existing : AnalyticsMetric)
  | insert (u : UpsertMetric)

inductive UpsertAnswer where
  | saved (u : UpsertMetric)
  | failed (u : UpsertMetric)

structure UpsertEnv where
  id : Uuid
  fault : Bool

abbrev UpsertTask := Task UpsertCall UpsertAnswer

namespace MetricsTable

/-- `UPDATE … SET value = … WHERE id = …`. -/
def setValue (db : MetricsTable) (id : Uuid) (value : ℚ) : MetricsTable where
  rows := db.rows.map fun r => if r.id = id then { r with value := numeric value } else r
  ids := by
    have h : (fun r : AnalyticsMetric => (if r.id = id then { r with value := numeric value } else r).id) =
        AnalyticsMetric.id := by funext r; split <;> rfl
    rw [List.map_map, Function.comp_def, h]
    exact db.ids
  keys := by
    have h : (fun r : AnalyticsMetric => (if r.id = id then { r with value := numeric value } else r).key) =
        AnalyticsMetric.key := by funext r; split <;> rfl
    rw [List.map_map, Function.comp_def, h]
    exact db.keys

/-- `none` when a unique index has the row already. -/
def add (db : MetricsTable) (r : AnalyticsMetric) : Option MetricsTable :=
  if h : r.id ∉ db.rows.map AnalyticsMetric.id ∧ r.key ∉ db.rows.map AnalyticsMetric.key then
    some {
      rows := db.rows ++ [r]
      ids := by simpa [List.nodup_append, db.ids] using h.1
      keys := by simpa [List.nodup_append, db.keys] using h.2 }
  else none

end MetricsTable

def insertMetric (env : UpsertEnv) (u : UpsertMetric) (db : MetricsTable) : Option MetricsTable :=
  u.timestamp.bind fun timestamp => db.add
    { id := env.id
      metricType := u.metricType
      aggregation := u.aggregation
      timestamp
      value := numeric u.value
      tags := u.tags }

/-- One statement of `upsertMetric`. -/
def advance (env : UpsertEnv) (call : UpsertCall) (db : MetricsTable) : MetricsTable × UpsertTask :=
  match call with
  | .find u =>
    if env.fault ∨ u.timestamp = none then (db, .done (.failed u))
    else match db.rows.find? u.finds with
      | some existing => (db, .running (.save u existing))
      | none => (db, .running (.insert u))
  | .save u existing =>
    if env.fault then (db, .done (.failed u))
    else (db.setValue existing.id (aggregateValues existing.value u.value u.metricType), .done (.saved u))
  | .insert u =>
    if env.fault then (db, .done (.failed u))
    else match insertMetric env u db with
      | some db => (db, .done (.saved u))
      | none => (db, .done (.failed u))

def upsertMetric : Proc MetricsTable UpsertEnv UpsertMetric UpsertCall UpsertAnswer where
  start := .find
  adv := advance

structure Recording where
  metricType : MetricType
  value : ℚ
  timestamp : Instant
  tags : MetricTags

def getRelevantAggregations : List MetricAggregation := [.minute, .hour, .day, .week, .month]

def Recording.upsert (zone : Int) (m : Recording) (a : MetricAggregation) : UpsertMetric where
  metricType := m.metricType
  aggregation := a
  timestamp := getBucketKey zone m.timestamp a
  value := m.value
  tags := m.tags

/-- What happens to the table: a recording starts its five writes, or one of them goes on. -/
inductive CollectorAct where
  | recordMetric (m : Recording)
  | sched (i : Nat) (env : UpsertEnv)

def CollectorAct.acts (zone : Int) : CollectorAct → List (Act UpsertEnv UpsertMetric)
  | .recordMetric m => getRelevantAggregations.map fun a => .spawn (m.upsert zone a)
  | .sched i env => [.sched i env]

def emptyTable : MetricsTable := ⟨[], List.nodup_nil, List.nodup_nil⟩

def collect (zone : Int) (as : List CollectorAct) : Conf MetricsTable UpsertCall UpsertAnswer :=
  run upsertMetric.step (Conf.init emptyTable) (as.flatMap (CollectorAct.acts zone))

/-! ## The aggregation job -/

inductive PipelineStatus where
  | idle
  | running
  | completed
  | failed
  | paused
  deriving DecidableEq, Repr

structure PipelineJob where
  status : PipelineStatus
  totalRecords : Nat
  processedRecords : Nat
  deriving DecidableEq, Repr

def noTags : MetricTags := ⟨none, none, none, none, none⟩

/-- The saves of one aggregation; `false` when one of them has thrown. -/
def saveGroups (newId : List AnalyticsMetric → Uuid) (a : MetricAggregation) :
    List (Instant × AnalyticsMetric × List AnalyticsMetric) → MetricsTable → Nat →
      MetricsTable × Nat × Bool
  | [], db, processed => (db, processed, true)
  | (key, m, rest) :: groups, db, processed =>
    match db.add
      { id := newId db.rows
        metricType := m.metricType
        aggregation := a
        timestamp := key
        value := numeric (((m :: rest).map AnalyticsMetric.value).sum)
        tags := { noTags with assetCode := m.tags.assetCode } } with
    | some db => saveGroups newId a groups db (processed + 1)
    | none => (db, processed, false)

def aggregateAll (zone : Int) (newId : List AnalyticsMetric → Uuid) (raw : List AnalyticsMetric) :
    List MetricAggregation → MetricsTable → Nat → MetricsTable × Nat × Bool
  | [], db, processed => (db, processed, true)
  | a :: as, db, processed =>
    match raw.mapM fun m => (getBucketKey zone m.timestamp a).map fun key => (key, m) with
    | none => (db, processed, false)
    | some keyed =>
      let grouped := (groups Prod.fst keyed).map fun g => (g.1, g.2.1.2, g.2.2.map Prod.snd)
      match saveGroups newId a grouped db processed with
      | (db, processed, true) => aggregateAll zone newId raw as db processed
      | (db, processed, false) => (db, processed, false)

/-- With one type the job reads its rows; with any other number of types it reads all. -/
def rawMetrics (metricTypes : List MetricType) (dateFrom dateTo : Instant) (db : MetricsTable) :
    List AnalyticsMetric :=
  db.rows.filter fun r => r.aggregation = .minute ∧ dateFrom.time ≤ r.timestamp.time ∧
    r.timestamp.time ≤ dateTo.time ∧ (metricTypes.length = 1 → metricTypes = [r.metricType])

def processAggregationJob (zone : Int) (newId : List AnalyticsMetric → Uuid)
    (metricTypes : List MetricType) (dateFrom dateTo : Instant) (db : MetricsTable) :
    MetricsTable × PipelineJob :=
  let raw := rawMetrics metricTypes dateFrom dateTo db
  let (db, processed, ok) := aggregateAll zone newId raw [.hour, .day, .week, .month] db 0
  (db, ⟨if ok then .completed else .failed, raw.length, processed⟩)

/-! ## Sums of a column -/

def MetricType.additive : MetricType → Bool
  | .tradeVolume | .tradeCount | .revenue | .transactionFee | .userNew | .blockchainGas => true
  | _ => false

theorem aggregateValues_additive {m : MetricType} (h : m.additive = true) (existing current : ℚ) :
    aggregateValues existing current m = existing + current := by
  cases m <;> first | rfl | cases h

theorem numeric_nonneg {v : ℚ} (h : 0 ≤ v) : 0 ≤ numeric v := roundTo_nonneg h

theorem numeric_sum_add {l : List ℚ} (hl : ∀ x ∈ l, 0 ≤ x) {v : ℚ} (hv : 0 ≤ v) :
    numeric ((l.map numeric).sum + v) = (l.map numeric).sum + numeric v := by
  have hstored : 0 ≤ (l.map numeric).sum ∧ roundTo 7 (l.map numeric).sum = (l.map numeric).sum := by
    induction l with
    | nil => exact ⟨le_refl _, roundTo_zero⟩
    | cons x l ih =>
      obtain ⟨hpos, hsum⟩ := ih fun y hy => hl y (.tail _ hy)
      rw [List.map_cons, List.sum_cons]
      exact ⟨add_nonneg (numeric_nonneg (hl x (.head _))) hpos, roundTo_add roundTo_roundTo hsum⟩
  exact roundTo_add_of_nonneg hstored.2 hstored.1 hv

/-! ## The calls -/

def UpsertMetric.key (u : UpsertMetric) : Option MetricKey :=
  u.timestamp.map fun timestamp => (u.metricType, u.aggregation, timestamp)

/-- The write a call was made for. -/
def upsertOf : UpsertTask → UpsertMetric
  | .running (.find u) | .running (.save u _) | .running (.insert u) => u
  | .done (.saved u) | .done (.failed u) => u

/-- The value a call has brought to the row of the key. -/
def savedValue (key : MetricKey) : UpsertTask → List ℚ
  | .done (.saved u) => if u.key = some key then [u.value] else []
  | _ => []

def savedValues (key : MetricKey) (ts : List UpsertTask) : List ℚ := ts.flatMap (savedValue key)

section Saved

variable {key : MetricKey} {pre post : List UpsertTask} {t : UpsertTask}

theorem savedValues_split :
    savedValues key (pre ++ t :: post) = savedValues key pre ++ savedValue key t ++ savedValues key post := by
  simp [savedValues]

theorem savedValues_same {t' : UpsertTask} (h : savedValue key t' = savedValue key t) :
    savedValues key (pre ++ t' :: post) = savedValues key (pre ++ t :: post) := by
  rw [savedValues_split, savedValues_split, h]

end Saved

/-- The sum of some of the values, each taken once at most. -/
def PartOf (values : List ℚ) (x : ℚ) : Prop := ∃ l : List ℚ, l.Sublist values ∧ x = (l.map numeric).sum

section Part

variable {key : MetricKey} {pre post : List UpsertTask} {t : UpsertTask} {k : UpsertCall} {x v : ℚ}

/-- A call that ends takes nothing from what the others have saved. -/
theorem PartOf.replace (h : PartOf (savedValues key (pre ++ .running k :: post)) x) :
    PartOf (savedValues key (pre ++ t :: post)) x := by
  obtain ⟨l, hl, rfl⟩ := h
  rw [savedValues_split, show savedValue key (.running k) = [] from rfl, List.append_nil] at hl
  obtain ⟨l₁, l₂, rfl, h₁, h₂⟩ := List.sublist_append_iff.mp hl
  rw [savedValues_split, List.append_assoc]
  exact ⟨_, h₁.append (h₂.trans (List.sublist_append_right _ _)), rfl⟩

/-- The value of a call that saves is no part of what was there. -/
theorem PartOf.saved (h : PartOf (savedValues key (pre ++ .running k :: post)) x)
    (ht : savedValue key t = [v]) : PartOf (savedValues key (pre ++ t :: post)) (x + numeric v) := by
  obtain ⟨l, hl, rfl⟩ := h
  rw [savedValues_split, show savedValue key (.running k) = [] from rfl, List.append_nil] at hl
  obtain ⟨l₁, l₂, rfl, h₁, h₂⟩ := List.sublist_append_iff.mp hl
  rw [savedValues_split, ht]
  refine ⟨l₁ ++ [v] ++ l₂, (h₁.append (List.Sublist.refl _)).append h₂, ?_⟩
  simp only [List.map_append, List.sum_append, List.map_singleton, List.sum_singleton]
  ring

theorem PartOf.numeric_add {values : List ℚ} (h : PartOf values x) (hpos : ∀ y ∈ values, 0 ≤ y)
    (hv : 0 ≤ v) : numeric (x + v) = x + numeric v := by
  obtain ⟨l, hl, rfl⟩ := h
  exact numeric_sum_add (fun y hy => hpos y (hl.subset hy)) hv

end Part

theorem savedValues_nonneg {key : MetricKey} {ts : List UpsertTask} (h : ∀ t ∈ ts, 0 ≤ (upsertOf t).value) :
    ∀ v ∈ savedValues key ts, 0 ≤ v := by
  intro v hv
  obtain ⟨t, ht, hv⟩ := List.mem_flatMap.mp hv
  have := h t ht
  unfold savedValue at hv
  split at hv
  · split at hv
    · rw [List.mem_singleton.mp hv]
      exact this
    · cases hv
  · cases hv

/-! ## Any interleaving -/

/-- What holds in every run: a row, and what a call has read of it, is the sum of some of the values that
were saved to it. -/
structure Partial (db : MetricsTable) (ts : List UpsertTask) : Prop where
  nonneg : ∀ t ∈ ts, 0 ≤ (upsertOf t).value
  rows : ∀ r ∈ db.rows, r.metricType.additive = true → PartOf (savedValues r.key ts) r.value
  reads : ∀ u r, .running (.save u r) ∈ ts → u.key = some r.key ∧
    (∃ r' ∈ db.rows, r'.id = r.id ∧ r'.key = r.key) ∧
      (r.metricType.additive = true → PartOf (savedValues r.key ts) r.value)

theorem key_of_finds {u : UpsertMetric} {r : AnalyticsMetric} (h : u.finds r = true) :
    u.key = some r.key := by
  simp only [UpsertMetric.finds, decide_eq_true_eq] at h
  obtain ⟨htype, hagg, htime, -, -⟩ := h
  rw [UpsertMetric.key, ← htime, ← htype, ← hagg]
  rfl

theorem metricType_of_key {u : UpsertMetric} {r : AnalyticsMetric} (h : u.key = some r.key) :
    u.metricType = r.metricType := by
  obtain ⟨timestamp, -, he⟩ := Option.map_eq_some_iff.mp h
  exact congrArg Prod.fst he

/-- Everything a statement can do. -/
theorem advance_cases (env : UpsertEnv) (call : UpsertCall) (db : MetricsTable) :
    (∃ u r, call = .find u ∧ r ∈ db.rows ∧ u.key = some r.key ∧
        advance env call db = (db, .running (.save u r))) ∨
      (∃ u, call = .find u ∧ advance env call db = (db, .running (.insert u))) ∨
      (∃ u r, call = .save u r ∧ advance env call db =
        (db.setValue r.id (aggregateValues r.value u.value u.metricType), .done (.saved u))) ∨
      (∃ u r db', call = .insert u ∧ u.key = some r.key ∧ r.value = numeric u.value ∧
        db'.rows = db.rows ++ [r] ∧ advance env call db = (db', .done (.saved u))) ∨
      advance env call db = (db, .done (.failed (upsertOf (.running call)))) := by
  cases call with
  | find u =>
    simp only [advance]
    split
    · exact .inr (.inr (.inr (.inr rfl)))
    · split
      · rename_i r hr
        exact .inl ⟨u, r, rfl, List.mem_of_find?_eq_some hr, key_of_finds (List.find?_some hr), rfl⟩
      · exact .inr (.inl ⟨u, rfl, rfl⟩)
  | save u r =>
    simp only [advance]
    split
    · exact .inr (.inr (.inr (.inr rfl)))
    · exact .inr (.inr (.inl ⟨u, r, rfl, rfl⟩))
  | insert u =>
    simp only [advance]
    split
    · exact .inr (.inr (.inr (.inr rfl)))
    · split
      · rename_i db' hins
        obtain ⟨timestamp, htime, hadd⟩ := Option.bind_eq_some_iff.mp hins
        unfold MetricsTable.add at hadd
        split at hadd
        · cases hadd
          exact .inr (.inr (.inr (.inl ⟨u, _, _, rfl, by rw [UpsertMetric.key, htime]; rfl, rfl, rfl, rfl⟩)))
        · cases hadd
      · exact .inr (.inr (.inr (.inr rfl)))

theorem mem_setValue {db : MetricsTable} {id : Uuid} {value : ℚ} {r : AnalyticsMetric}
    (h : r ∈ (db.setValue id value).rows) :
    r ∈ db.rows ∧ r.id ≠ id ∨ ∃ r₀ ∈ db.rows, r₀.id = id ∧ r = { r₀ with value := numeric value } := by
  obtain ⟨r₀, hr₀, rfl⟩ := List.mem_map.mp h
  split
  · rename_i hid
    exact .inr ⟨r₀, hr₀, hid, rfl⟩
  · rename_i hid
    exact .inl ⟨hr₀, hid⟩

theorem row_setValue {db : MetricsTable} {id : Uuid} {value : ℚ} {r : AnalyticsMetric} (h : r ∈ db.rows) :
    ∃ r' ∈ (db.setValue id value).rows, r'.id = r.id ∧ r'.key = r.key := by
  refine ⟨_, List.mem_map_of_mem h, ?_⟩
  split <;> exact ⟨rfl, rfl⟩

theorem upsertOf_advance (env : UpsertEnv) (call : UpsertCall) (db : MetricsTable) :
    upsertOf (advance env call db).2 = upsertOf (.running call) := by
  obtain ⟨u, r, rfl, -, -, hs⟩ | ⟨u, rfl, hs⟩ | ⟨u, r, rfl, hs⟩ | ⟨u, r, db', rfl, -, -, -, hs⟩ | hs :=
    advance_cases env call db <;> rw [hs] <;> rfl

/-- What the calls have read, after a step that keeps the rows and what was saved to them. -/
theorem Partial.reads_replace {db db' : MetricsTable} {pre post : List UpsertTask} {k : UpsertCall}
    {t : UpsertTask} (h : Partial db (pre ++ .running k :: post))
    (hrows : ∀ r ∈ db.rows, ∃ r' ∈ db'.rows, r'.id = r.id ∧ r'.key = r.key)
    (ht : ∀ u r, t = .running (.save u r) → r ∈ db.rows ∧ u.key = some r.key) (u : UpsertMetric)
    (r : AnalyticsMetric) (hmem : .running (.save u r) ∈ pre ++ t :: post) :
    u.key = some r.key ∧ (∃ r' ∈ db'.rows, r'.id = r.id ∧ r'.key = r.key) ∧
      (r.metricType.additive = true → PartOf (savedValues r.key (pre ++ t :: post)) r.value) := by
  have hold : .running (.save u r) ∈ pre ++ .running k :: post → _ := h.reads u r
  simp only [List.mem_append, List.mem_cons] at hmem hold
  rcases hmem with hmem | hmem | hmem
  · obtain ⟨hkey, ⟨r', hr', hid, hk⟩, hpart⟩ := hold (.inl hmem)
    obtain ⟨r'', hr'', hid', hk'⟩ := hrows r' hr'
    exact ⟨hkey, ⟨r'', hr'', hid'.trans hid, hk'.trans hk⟩, fun hadd => (hpart hadd).replace⟩
  · obtain ⟨hr, hkey⟩ := ht u r hmem.symm
    exact ⟨hkey, hrows r hr, fun hadd => (h.rows r hr hadd).replace⟩
  · obtain ⟨hkey, ⟨r', hr', hid, hk⟩, hpart⟩ := hold (.inr (.inr hmem))
    obtain ⟨r'', hr'', hid', hk'⟩ := hrows r' hr'
    exact ⟨hkey, ⟨r'', hr'', hid'.trans hid, hk'.trans hk⟩, fun hadd => (hpart hadd).replace⟩

theorem Partial.advance (db : MetricsTable) (pre : List UpsertTask) (k : UpsertCall)
    (post : List UpsertTask) (env : UpsertEnv) (h : Partial db (pre ++ .running k :: post)) :
    Partial (advance env k db).1 (pre ++ (Metrics.advance env k db).2 :: post) := by
  have hnonneg : ∀ t ∈ pre ++ (Metrics.advance env k db).2 :: post, 0 ≤ (upsertOf t).value := by
    refine forall_replace h.nonneg (fun _ ht => ht) ?_
    rw [upsertOf_advance]
    exact h.nonneg _ (by simp)
  obtain ⟨u, r, rfl, hr, hkey, hs⟩ | ⟨u, rfl, hs⟩ | ⟨u, r, rfl, hs⟩ | ⟨u, r, db', rfl, hkey, hvalue, hdb, hs⟩ |
    hs := advance_cases env k db <;> rw [hs] at hnonneg ⊢
  · refine ⟨hnonneg, fun r hr hadd => (h.rows r hr hadd).replace, h.reads_replace (fun r hr => ⟨r, hr, rfl, rfl⟩) ?_⟩
    intro u' r' he
    cases he
    exact ⟨hr, hkey⟩
  · exact ⟨hnonneg, fun r hr hadd => (h.rows r hr hadd).replace,
      h.reads_replace (fun r hr => ⟨r, hr, rfl, rfl⟩) fun u' r' he => by cases he⟩
  · -- the row saved holds what the call has read, and the value the call brings
    obtain ⟨hkey, ⟨r', hr', hid', hk'⟩, hpart⟩ := h.reads u r (by simp)
    refine ⟨hnonneg, fun x hx hadd => ?_, h.reads_replace (fun r hr => row_setValue hr) fun u' r' he => by cases he⟩
    rcases mem_setValue hx with ⟨hx, -⟩ | ⟨r₀, hr₀, hid, rfl⟩
    · exact (h.rows x hx hadd).replace
    · obtain rfl : r₀ = r' := List.inj_on_of_nodup_map db.ids hr₀ hr' (hid.trans hid'.symm)
      have htype₀ : r₀.metricType = r.metricType := congrArg Prod.fst hk'
      have htype := metricType_of_key hkey
      have hpart := hpart (htype₀ ▸ hadd)
      have hu : 0 ≤ u.value := h.nonneg (.running (.save u r)) (by simp)
      show PartOf (savedValues r₀.key _) (numeric _)
      rw [aggregateValues_additive (by rw [htype, ← htype₀]; exact hadd), hk',
        hpart.numeric_add (savedValues_nonneg h.nonneg) hu]
      exact hpart.saved (by rw [savedValue, if_pos hkey])
  · refine ⟨hnonneg, fun x hx hadd => ?_, h.reads_replace (fun r hr => ⟨r, by simp [hdb, hr], rfl, rfl⟩)
      fun u' r' he => by cases he⟩
    rw [hdb, List.mem_append, List.mem_singleton] at hx
    rcases hx with hx | rfl
    · exact (h.rows x hx hadd).replace
    · have hnone : PartOf (savedValues x.key (pre ++ .running (.insert u) :: post)) 0 :=
        ⟨[], List.nil_sublist _, rfl⟩
      have := hnone.saved (t := .done (.saved u)) (by rw [savedValue, if_pos hkey])
      rwa [zero_add, ← hvalue] at this
  · exact ⟨hnonneg, fun r hr hadd => (h.rows r hr hadd).replace,
      h.reads_replace (fun r hr => ⟨r, hr, rfl, rfl⟩) fun u' r' he => by cases he⟩

theorem Partial.spawn {db : MetricsTable} {ts : List UpsertTask} {u : UpsertMetric} (hu : 0 ≤ u.value)
    (h : Partial db ts) : Partial db (ts ++ [.running (.find u)]) := by
  have hsaved : ∀ key, savedValues key (ts ++ [.running (.find u)]) = savedValues key ts := by
    intro key
    simp [savedValues, savedValue]
  refine ⟨?_, ?_, ?_⟩
  · simpa [upsertOf, or_imp, forall_and, hu] using h.nonneg
  · simpa only [hsaved] using h.rows
  · intro u' r hmem
    rw [hsaved]
    exact h.reads u' r (by simpa using hmem)

theorem partial_run {acts : List (Act UpsertEnv UpsertMetric)} (h : ∀ u, .spawn u ∈ acts → 0 ≤ u.value) :
    Partial (run upsertMetric.step (Conf.init emptyTable) acts).shared
      (run upsertMetric.step (Conf.init emptyTable) acts).tasks := by
  refine run_inv (I := fun c => Partial c.shared c.tasks) (G := Meets (fun u => 0 ≤ u.value)
    fun _ _ _ _ => True) (fun c a hI hG => step_inv upsertMetric (fun s ts u hu hI => hI.spawn hu)
      (fun s pre k post e _ hI => hI.advance s pre k post e) c a hI hG) ?_ (along_of_spawns _ h _)
  exact ⟨by simp [Conf.init], by simp [Conf.init, emptyTable], by simp [Conf.init]⟩

/-! ## Saves that find what was read -/

/-- The statement succeeds, and the row to save is still what the call has found. -/
def Fresh (env : UpsertEnv) (call : UpsertCall) (db : MetricsTable) : Prop :=
  env.fault = false ∧ match call with
    | .find u => u.timestamp.isSome = true
    | .save _ r => r ∈ db.rows
    | .insert u => (insertMetric env u db).isSome = true

instance (env : UpsertEnv) (call : UpsertCall) (db : MetricsTable) : Decidable (Fresh env call db) :=
  match call with
  | .find _ | .save _ _ | .insert _ => inferInstanceAs (Decidable (_ ∧ _))

/-- Nothing has failed, and a row is the sum of all that was saved to it. -/
structure Whole (db : MetricsTable) (ts : List UpsertTask) : Prop where
  nonneg : ∀ t ∈ ts, 0 ≤ (upsertOf t).value
  rows : ∀ r ∈ db.rows, r.metricType.additive = true →
    r.value = ((savedValues r.key ts).map numeric).sum
  covered : ∀ u, .done (.saved u) ∈ ts → ∃ r ∈ db.rows, u.key = some r.key
  written : ∀ r ∈ db.rows, ∃ u, .done (.saved u) ∈ ts ∧ u.key = some r.key
  reads : ∀ u r, .running (.save u r) ∈ ts → u.key = some r.key
  ended : ∀ u, .done (.failed u) ∉ ts

theorem advance_fresh {env : UpsertEnv} {call : UpsertCall} {db : MetricsTable} (h : Fresh env call db)
    (u : UpsertMetric) : (advance env call db).2 ≠ .done (.failed u) := by
  obtain ⟨hfault, hfound⟩ := h
  cases call with
  | find u' =>
    have hvalid : ¬ u'.timestamp = none := fun hnone => by simp [hnone] at hfound
    simp only [advance, hfault, hvalid, Bool.false_eq_true, or_self, if_false]
    split <;> simp
  | save u' r => simp [advance, hfault]
  | insert u' =>
    obtain ⟨db', hdb'⟩ := Option.isSome_iff_exists.mp hfound
    simp [advance, hfault, hdb']

theorem savedValues_nil {key : MetricKey} {ts : List UpsertTask}
    (h : ∀ u, .done (.saved u) ∈ ts → u.key ≠ some key) : savedValues key ts = [] := by
  refine List.flatMap_eq_nil_iff.mpr fun t ht => ?_
  unfold savedValue
  split
  · rename_i u
    rw [if_neg (h u ht)]
  · rfl

theorem sum_saved {key : MetricKey} {pre post : List UpsertTask} {k : UpsertCall} {u : UpsertMetric} :
    ((savedValues key (pre ++ .done (.saved u) :: post)).map numeric).sum =
      ((savedValues key (pre ++ .running k :: post)).map numeric).sum +
        if u.key = some key then numeric u.value else 0 := by
  rw [savedValues_split, savedValues_split, show savedValue key (.running k) = [] from rfl, savedValue]
  split <;>
  · simp only [List.map_append, List.sum_append, List.map_singleton, List.sum_singleton, List.map_nil,
      List.sum_nil]
    ring

section Whole

variable {db db' : MetricsTable} {pre post : List UpsertTask} {k : UpsertCall} {t : UpsertTask}
  {env : UpsertEnv}

/-- What a step has to show for the call it moves. -/
theorem Whole.replace (h : Whole db (pre ++ .running k :: post)) (harg : upsertOf t = upsertOf (.running k))
    (hrows : ∀ r ∈ db'.rows, r.metricType.additive = true →
      r.value = ((savedValues r.key (pre ++ t :: post)).map numeric).sum)
    (hkept : ∀ r ∈ db.rows, ∃ r' ∈ db'.rows, r'.key = r.key)
    (hsaved : ∀ u, t = .done (.saved u) → ∃ r ∈ db'.rows, u.key = some r.key)
    (hwritten : ∀ r ∈ db'.rows, (∃ r₀ ∈ db.rows, r₀.key = r.key) ∨
      ∃ u, t = .done (.saved u) ∧ u.key = some r.key)
    (hread : ∀ u r, t = .running (.save u r) → u.key = some r.key)
    (hended : ∀ u, t ≠ .done (.failed u)) : Whole db' (pre ++ t :: post) := by
  have hothers : ∀ t' ∈ pre ++ t :: post, t' = t ∨ t' ∈ pre ++ .running k :: post := by
    intro t' ht'
    simp only [List.mem_append, List.mem_cons] at ht' ⊢
    rcases ht' with ht' | ht' | ht'
    · exact .inr (.inl ht')
    · exact .inl ht'
    · exact .inr (.inr (.inr ht'))
  refine ⟨fun t' ht' => ?_, hrows, fun u hu => ?_, fun r hr => ?_, fun u r hu => ?_, fun u hu => ?_⟩
  · rcases hothers t' ht' with rfl | ht'
    · rw [harg]
      exact h.nonneg _ (by simp)
    · exact h.nonneg t' ht'
  · rcases hothers _ hu with hu | hu
    · exact hsaved u hu.symm
    · obtain ⟨r, hr, hkey⟩ := h.covered u hu
      obtain ⟨r', hr', hk'⟩ := hkept r hr
      exact ⟨r', hr', hk' ▸ hkey⟩
  · rcases hwritten r hr with ⟨r₀, hr₀, hk⟩ | ⟨u, rfl, hkey⟩
    · obtain ⟨u, hu, hkey⟩ := h.written r₀ hr₀
      refine ⟨u, ?_, hk ▸ hkey⟩
      simp only [List.mem_append, List.mem_cons] at hu ⊢
      rcases hu with hu | hu | hu
      · exact .inl hu
      · cases hu
      · exact .inr (.inr hu)
    · exact ⟨u, by simp, hkey⟩
  · rcases hothers _ hu with hu | hu
    · exact hread u r hu.symm
    · exact h.reads u r hu
  · rcases hothers _ hu with hu | hu
    · exact hended u hu.symm
    · exact h.ended u hu

/-- A call that has only read leaves the sums. -/
theorem Whole.found (h : Whole db (pre ++ .running k :: post)) {k' : UpsertCall}
    (harg : upsertOf (.running k') = upsertOf (.running k))
    (hread : ∀ u r, k' = .save u r → u.key = some r.key) : Whole db (pre ++ .running k' :: post) := by
  refine h.replace harg (fun r hr hadd => ?_) (fun r hr => ⟨r, hr, rfl⟩) (fun u hu => by cases hu)
    (fun r hr => .inl ⟨r, hr, rfl⟩) (fun u r hu => hread u r (Task.running.inj hu)) (fun u hu => by cases hu)
  rw [h.rows r hr hadd]
  exact congrArg (fun l => (List.map numeric l).sum) (savedValues_same rfl)

theorem Whole.save {u : UpsertMetric} {r : AnalyticsMetric} (hr : r ∈ db.rows)
    (h : Whole db (pre ++ .running (.save u r) :: post)) :
    Whole (db.setValue r.id (aggregateValues r.value u.value u.metricType))
      (pre ++ .done (.saved u) :: post) := by
  have hkey := h.reads u r (by simp)
  have hu : 0 ≤ u.value := h.nonneg (.running (.save u r)) (by simp)
  have hkept : ∀ x ∈ db.rows, ∃ x' ∈ (db.setValue r.id
      (aggregateValues r.value u.value u.metricType)).rows, x'.key = x.key := by
    intro x hx
    obtain ⟨x', hx', -, hk⟩ := row_setValue hx
    exact ⟨x', hx', hk⟩
  refine h.replace rfl (fun x hx hadd => ?_) hkept (fun u' hu' => ?_) (fun x hx => .inl ?_)
    (fun u' r' hu' => by cases hu') (fun u' hu' => by cases hu')
  · rw [sum_saved (k := .save u r)]
    rcases mem_setValue hx with ⟨hx, hid⟩ | ⟨r₀, hr₀, hid, rfl⟩
    · have hne : ¬ u.key = some x.key := fun he => by
        have hk : r.key = x.key := Option.some.inj (hkey.symm.trans he)
        exact hid (congrArg AnalyticsMetric.id (List.inj_on_of_nodup_map db.keys hx hr hk.symm))
      rw [if_neg hne, add_zero, h.rows x hx hadd]
    · obtain rfl : r₀ = r := List.inj_on_of_nodup_map db.ids hr₀ hr hid
      show numeric _ = ((savedValues r₀.key _).map numeric).sum + if u.key = some r₀.key then _ else _
      rw [aggregateValues_additive (by rw [metricType_of_key hkey]; exact hadd), h.rows r₀ hr₀ hadd,
        numeric_sum_add (savedValues_nonneg h.nonneg) hu, if_pos hkey]
  · cases hu'
    obtain ⟨r', hr', hk⟩ := hkept r hr
    exact ⟨r', hr', hk ▸ hkey⟩
  · rcases mem_setValue hx with ⟨hx, -⟩ | ⟨r₀, hr₀, -, rfl⟩
    · exact ⟨x, hx, rfl⟩
    · exact ⟨r₀, hr₀, rfl⟩

theorem Whole.insert {u : UpsertMetric} {r : AnalyticsMetric} (hkey : u.key = some r.key)
    (hvalue : r.value = numeric u.value) (hdb : db'.rows = db.rows ++ [r])
    (h : Whole db (pre ++ .running (.insert u) :: post)) : Whole db' (pre ++ .done (.saved u) :: post) := by
  have hnew : ∀ x ∈ db.rows, x.key ≠ r.key := by
    have := db'.keys
    rw [hdb, List.map_append, List.nodup_append] at this
    intro x hx
    exact this.2.2 _ (List.mem_map_of_mem hx) _ (by simp)
  refine h.replace rfl (fun x hx hadd => ?_) (fun x hx => ⟨x, by simp [hdb, hx], rfl⟩) (fun u' hu' => ?_)
    (fun x hx => ?_) (fun u' r' hu' => by cases hu') (fun u' hu' => by cases hu')
  · rw [sum_saved (k := .insert u)]
    rw [hdb, List.mem_append, List.mem_singleton] at hx
    rcases hx with hx | rfl
    · have hne : ¬ u.key = some x.key := fun he => hnew x hx (Option.some.inj (he.symm.trans hkey))
      rw [if_neg hne, add_zero, h.rows x hx hadd]
    · -- whatever was saved to the key has its row, so nothing was
      have hnil : savedValues x.key (pre ++ .running (.insert u) :: post) = [] := by
        refine savedValues_nil fun u' hu' he => ?_
        obtain ⟨x', hx', hk⟩ := h.covered u' hu'
        exact hnew x' hx' (Option.some.inj (hk.symm.trans he))
      rw [hnil, if_pos hkey, hvalue]
      simp
  · cases hu'
    exact ⟨r, by simp [hdb], hkey⟩
  · rw [hdb, List.mem_append, List.mem_singleton] at hx
    rcases hx with hx | rfl
    · exact .inl ⟨x, hx, rfl⟩
    · exact .inr ⟨u, rfl, hkey⟩

theorem Whole.advance (hfresh : Fresh env k db) (h : Whole db (pre ++ .running k :: post)) :
    Whole (advance env k db).1 (pre ++ (Metrics.advance env k db).2 :: post) := by
  obtain ⟨u, r, rfl, -, hkey, hs⟩ | ⟨u, rfl, hs⟩ | ⟨u, r, rfl, hs⟩ | ⟨u, r, db', rfl, hkey, hvalue, hdb, hs⟩ |
    hs := advance_cases env k db
  · rw [hs]
    refine h.found rfl fun u' r' he => ?_
    cases he
    exact hkey
  · rw [hs]
    exact h.found rfl fun u' r' he => by cases he
  · rw [hs]
    exact h.save hfresh.2
  · rw [hs]
    exact h.insert hkey hvalue hdb
  · exact absurd (congrArg Prod.snd hs) (advance_fresh hfresh _)

theorem Whole.spawn {ts : List UpsertTask} {u : UpsertMetric} (hu : 0 ≤ u.value) (h : Whole db ts) :
    Whole db (ts ++ [.running (.find u)]) := by
  have hsaved : ∀ key, savedValues key (ts ++ [.running (.find u)]) = savedValues key ts := by
    intro key
    simp [savedValues, savedValue]
  refine ⟨?_, ?_, ?_, ?_, ?_, ?_⟩
  · simpa [upsertOf, or_imp, forall_and, hu] using h.nonneg
  · simpa only [hsaved] using h.rows
  · simpa using h.covered
  · simpa using h.written
  · simpa using h.reads
  · simpa using h.ended

end Whole

theorem whole_run {acts : List (Act UpsertEnv UpsertMetric)}
    (h : Along upsertMetric.step (Meets (fun u => 0 ≤ u.value) fun env call db _ => Fresh env call db)
      (Conf.init emptyTable) acts) :
    Whole (run upsertMetric.step (Conf.init emptyTable) acts).shared
      (run upsertMetric.step (Conf.init emptyTable) acts).tasks := by
  refine run_inv (I := fun c => Whole c.shared c.tasks) (fun c a hI hG => step_inv upsertMetric
    (fun s ts u hu hI => hI.spawn hu) (fun s pre k post e hfresh hI => hI.advance hfresh) c a hI hG) ?_ h
  exact ⟨by simp [Conf.init], by simp [Conf.init, emptyTable], by simp [Conf.init],
    by simp [Conf.init, emptyTable], by simp [Conf.init], by simp [Conf.init]⟩

/-! ## What was recorded -/

def recordings (as : List CollectorAct) : List Recording :=
  as.filterMap fun
    | .recordMetric m => some m
    | .sched _ _ => none

/-- The recordings of the bucket of a row. -/
def recordedFor (zone : Int) (key : MetricKey) (ms : List Recording) : List Recording :=
  ms.filter fun m => m.metricType = key.1 ∧ getBucketKey zone m.timestamp key.2.1 = some key.2.2

section Recorded

variable {zone : Int}

def spawned (acts : List (Act UpsertEnv UpsertMetric)) : List UpsertMetric :=
  acts.filterMap fun
    | .spawn u => some u
    | .sched _ _ => none

theorem upsertOf_run (c : Conf MetricsTable UpsertCall UpsertAnswer)
    (acts : List (Act UpsertEnv UpsertMetric)) :
    (run upsertMetric.step c acts).tasks.map upsertOf = c.tasks.map upsertOf ++ spawned acts := by
  induction acts generalizing c with
  | nil => simp [run, spawned]
  | cons a acts ih =>
    rw [run, ih]
    obtain ⟨u, rfl, hs⟩ | ⟨i, env, k, pre, post, rfl, -, hts, hs⟩ | hs := step_cases upsertMetric c a
    · rw [hs]
      simp [spawned, upsertOf, upsertMetric]
    · rw [hs, hts]
      have : upsertOf (upsertMetric.adv env k c.shared).2 = upsertOf (.running k) := upsertOf_advance env k _
      simp [spawned, this]
    · rw [hs]
      cases a with
      | spawn u =>
        have hlen := congrArg (fun c => c.tasks.length) hs
        simp [Proc.step] at hlen
      | sched i env => rfl

theorem spawned_acts (zone : Int) (as : List CollectorAct) :
    spawned (as.flatMap (CollectorAct.acts zone)) =
      (recordings as).flatMap fun m => getRelevantAggregations.map (m.upsert zone) := by
  induction as with
  | nil => rfl
  | cons a as ih =>
    rw [List.flatMap_cons, spawned, List.filterMap_append]
    cases a with
    | recordMetric m => exact congrArg (getRelevantAggregations.map (m.upsert zone) ++ ·) ih
    | sched i env => exact ih

theorem filter_upserts (m : Recording) (key : MetricKey) :
    ((getRelevantAggregations.map (m.upsert zone)).filter fun u => u.key = some key).map UpsertMetric.value =
      (recordedFor zone key [m]).map Recording.value := by
  obtain ⟨metricType, a, timestamp⟩ := key
  have hkey : ∀ a', (m.upsert zone a').key = some (metricType, a, timestamp) ↔
      a' = a ∧ m.metricType = metricType ∧ getBucketKey zone m.timestamp a = some timestamp := by
    intro a'
    simp only [UpsertMetric.key, Recording.upsert, Option.map_eq_some_iff, Prod.mk.injEq]
    constructor
    · rintro ⟨t, ht, htype, rfl, rfl⟩
      exact ⟨rfl, htype, ht⟩
    · rintro ⟨rfl, htype, ht⟩
      exact ⟨_, ht, htype, rfl, rfl⟩
  by_cases hm : m.metricType = metricType ∧ getBucketKey zone m.timestamp a = some timestamp
  · cases a <;> simp [getRelevantAggregations, recordedFor, hkey, hm] <;> rfl
  · simp [getRelevantAggregations, recordedFor, hkey, hm]

theorem upserts_recorded (ms : List Recording) (key : MetricKey) :
    ((ms.flatMap fun m => getRelevantAggregations.map (m.upsert zone)).filter
      fun u => u.key = some key).map UpsertMetric.value = (recordedFor zone key ms).map Recording.value := by
  induction ms with
  | nil => rfl
  | cons m ms ih =>
    rw [List.flatMap_cons, List.filter_append, List.map_append, ih, filter_upserts, ← List.map_append,
      recordedFor, recordedFor, ← List.filter_append]
    rfl

theorem savedValues_sublist (key : MetricKey) (ts : List UpsertTask) :
    (savedValues key ts).Sublist
      (((ts.map upsertOf).filter fun u => u.key = some key).map UpsertMetric.value) := by
  induction ts with
  | nil => exact .slnil
  | cons t ts ih =>
    have ht : (savedValue key t).Sublist
        (((if (upsertOf t).key = some key then [upsertOf t] else [])).map UpsertMetric.value) := by
      unfold savedValue
      split
      · rename_i u
        show (if u.key = some key then [u.value] else []).Sublist
          ((if u.key = some key then [u] else []).map _)
        split <;> exact List.Sublist.refl _
      · exact List.nil_sublist _
    have := ht.append ih
    rw [← List.map_append] at this
    refine this.trans (List.Sublist.map _ ?_)
    rw [List.map_cons, List.filter_cons]
    split <;> simp_all

theorem savedValues_quiet {key : MetricKey} {ts : List UpsertTask} (hquiet : ∀ t ∈ ts, t.isDone = true)
    (hended : ∀ u, .done (.failed u) ∉ ts) :
    savedValues key ts = ((ts.map upsertOf).filter fun u => u.key = some key).map UpsertMetric.value := by
  induction ts with
  | nil => rfl
  | cons t ts ih =>
    have ih := ih (fun t ht => hquiet t (.tail _ ht)) fun u hu => hended u (.tail _ hu)
    cases t with
    | running k => cases hquiet _ (.head _)
    | done r =>
      cases r with
      | failed u => exact absurd (.head _) (hended u)
      | saved u =>
        show savedValue key (.done (.saved u)) ++ savedValues key ts = _
        rw [ih, List.map_cons, List.filter_cons]
        by_cases hu : u.key = some key <;> simp [savedValue, upsertOf, hu]

end Recorded

/-! ## Rows and recordings -/

theorem upserts_collect (zone : Int) (as : List CollectorAct) :
    (collect zone as).tasks.map upsertOf =
      (recordings as).flatMap fun m => getRelevantAggregations.map (m.upsert zone) := by
  rw [collect, upsertOf_run, spawned_acts]
  rfl

/-- A value is in its row once at most, however the writes are interleaved and whichever of them fail. -/
theorem value_partOf (zone : Int) {as : List CollectorAct} (h : ∀ m ∈ recordings as, 0 ≤ m.value) :
    ∀ r ∈ (collect zone as).shared.rows, r.metricType.additive = true →
      PartOf ((recordedFor zone r.key (recordings as)).map Recording.value) r.value := by
  intro r hr hadd
  have hspawn : ∀ u, .spawn u ∈ as.flatMap (CollectorAct.acts zone) → 0 ≤ u.value := by
    intro u hu
    have hu : u ∈ spawned (as.flatMap (CollectorAct.acts zone)) := List.mem_filterMap.mpr ⟨_, hu, rfl⟩
    rw [spawned_acts, List.mem_flatMap] at hu
    obtain ⟨m, hm, hu⟩ := hu
    obtain ⟨a, -, rfl⟩ := List.mem_map.mp hu
    exact h m hm
  obtain ⟨l, hl, hvalue⟩ := (partial_run hspawn).rows r hr hadd
  refine ⟨l, hl.trans ?_, hvalue⟩
  have := savedValues_sublist r.key (collect zone as).tasks
  rwa [upserts_collect, upserts_recorded] at this

/-- A recording of three trades in the first minute of 1970, and its `n` writes from the `i`-th on. -/
def threeTrades (time : Instant) : CollectorAct := .recordMetric ⟨.tradeCount, 3, time, noTags⟩

def goOn (i n : Nat) : List CollectorAct := (List.range n).map fun j => .sched (i + j) ⟨i + j, false⟩

theorem valid_zero : -maxTime ≤ 0 ∧ 0 ≤ maxTime := by decide

/-- Two recordings find the row of the first before either saves it. -/
def racing : List CollectorAct :=
  List.replicate 3 (threeTrades ⟨0, valid_zero⟩) ++ goOn 0 5 ++ goOn 0 5 ++ goOn 5 10 ++ goOn 5 10

theorem value_partOf_racing : (collect 0 racing).shared.rows.map AnalyticsMetric.value = [6, 6, 6, 6, 6] ∧
    ∀ r ∈ (collect 0 racing).shared.rows, r.metricType.additive = true →
      PartOf ((recordedFor 0 r.key (recordings racing)).map Recording.value) r.value :=
  ⟨by decide +kernel, value_partOf 0 (by decide +kernel)⟩

/-- A run of recordings whose saves all find what they have read, until every write has ended. -/
structure Undisturbed (zone : Int) (as : List CollectorAct) : Prop where
  fresh : Along upsertMetric.step (Meets (fun u => 0 ≤ u.value) fun env call db _ => Fresh env call db)
    (Conf.init emptyTable) (as.flatMap (CollectorAct.acts zone))
  quiet : (collect zone as).Quiet

section Undisturbed

variable {zone : Int} {as : List CollectorAct}

theorem Undisturbed.whole (h : Undisturbed zone as) :
    Whole (collect zone as).shared (collect zone as).tasks := whole_run h.fresh

theorem Undisturbed.value (h : Undisturbed zone as) : ∀ r ∈ (collect zone as).shared.rows,
    r.metricType.additive = true → r.value =
      ((recordedFor zone r.key (recordings as)).map fun m => numeric m.value).sum := by
  intro r hr hadd
  rw [h.whole.rows r hr hadd, savedValues_quiet h.quiet h.whole.ended, upserts_collect, upserts_recorded,
    List.map_map]
  rfl

/-- Every recording has its five rows. -/
theorem Undisturbed.covered (h : Undisturbed zone as) {m : Recording} (hm : m ∈ recordings as)
    (a : MetricAggregation) :
    ∃ r ∈ (collect zone as).shared.rows, r.metricType = m.metricType ∧ r.aggregation = a ∧
      getBucketKey zone m.timestamp a = some r.timestamp := by
  have hu : m.upsert zone a ∈ (collect zone as).tasks.map upsertOf := by
    rw [upserts_collect]
    refine List.mem_flatMap.mpr ⟨m, hm, List.mem_map_of_mem ?_⟩
    cases a <;> simp [getRelevantAggregations]
  obtain ⟨t, ht, hupsert⟩ := List.mem_map.mp hu
  have hsaved : .done (.saved (m.upsert zone a)) ∈ (collect zone as).tasks := by
    have hdone := h.quiet t ht
    cases t with
    | running k => cases hdone
    | done r =>
      cases r with
      | saved u => exact (show u = _ from hupsert) ▸ ht
      | failed u => exact absurd ht (h.whole.ended u)
  obtain ⟨r, hr, hkey⟩ := h.whole.covered _ hsaved
  obtain ⟨timestamp, htime, he⟩ := Option.map_eq_some_iff.mp hkey
  simp only [AnalyticsMetric.key, Recording.upsert, Prod.mk.injEq] at he htime
  exact ⟨r, hr, he.1.symm, he.2.1.symm, he.2.2 ▸ htime⟩

/-- The row of a bucket is the sum of the rows of the smaller buckets in it. -/
theorem value_rollUp {a b : MetricAggregation} (hnests : Nests a b) (h : Undisturbed zone as) :
    ∀ r ∈ (collect zone as).shared.rows, r.metricType.additive = true → r.aggregation = b →
      r.value = (((collect zone as).shared.rows.filter fun s => s.metricType = r.metricType ∧
        s.aggregation = a ∧ getBucketKey zone s.timestamp b = some r.timestamp).map
          AnalyticsMetric.value).sum := by
  rintro r hr hadd rfl
  generalize hinner : (collect zone as).shared.rows.filter (fun s => s.metricType = r.metricType ∧
    s.aggregation = a ∧ getBucketKey zone s.timestamp r.aggregation = some r.timestamp) = inner
  have hmem : ∀ s, s ∈ inner ↔ s ∈ (collect zone as).shared.rows ∧ s.metricType = r.metricType ∧
      s.aggregation = a ∧ getBucketKey zone s.timestamp r.aggregation = some r.timestamp := by
    intro s
    rw [← hinner, List.mem_filter, decide_eq_true_eq]
  -- the recordings of the row, by the smaller buckets they are in
  let keyOf : Recording → Option MetricKey := fun m => (m.upsert zone a).key
  have hsum := sum_by_key keyOf (inner.map fun s => some s.key) ?nodup
    (recordedFor zone r.key (recordings as)) ?cover fun m => numeric m.value
  case nodup =>
    have hkeys : (inner.map AnalyticsMetric.key).Nodup := by
      rw [← hinner]
      exact (collect zone as).shared.keys.sublist (List.filter_sublist.map _)
    rw [← Function.comp_def, ← List.map_map]
    exact hkeys.map (Option.some_injective _)
  case cover =>
    intro m hm
    simp only [recordedFor, List.mem_filter, decide_eq_true_eq] at hm
    obtain ⟨hm, htype, htime⟩ := hm
    obtain ⟨s, hs, hstype, hsagg, hstime⟩ := h.covered hm a
    refine List.mem_map.mpr ⟨s, (hmem s).mpr ⟨hs, hstype.trans htype, hsagg, ?_⟩, ?_⟩
    · rw [getBucketKey_getBucketKey hnests hstime]
      exact htime
    · simp only [keyOf, UpsertMetric.key, Recording.upsert, hstime, AnalyticsMetric.key, hstype, hsagg,
        Option.map_some]
  rw [h.value r hr hadd, ← hsum, List.map_map]
  refine congrArg List.sum (List.map_congr_left fun s hs => ?_)
  obtain ⟨hs, hstype, hsagg, hstime⟩ := (hmem s).mp hs
  rw [h.value s hs (hstype ▸ hadd)]
  simp only [Function.comp_apply, recordedFor, List.filter_filter]
  congr 2
  refine List.filter_congr fun m _ => ?_
  rw [Bool.eq_iff_iff]
  simp only [decide_eq_true_eq, Bool.and_eq_true, keyOf, UpsertMetric.key, Recording.upsert,
    Option.map_eq_some_iff, AnalyticsMetric.key, Prod.mk.injEq, hstype, hsagg]
  constructor
  · rintro ⟨⟨t, ht, -, -, rfl⟩, hin⟩
    exact ⟨(of_decide_eq_true hin).1, ht⟩
  · rintro ⟨htype, htime⟩
    exact ⟨⟨_, htime, htype, trivial, rfl⟩,
      decide_eq_true ⟨htype, getBucketKey_getBucketKey hnests htime ▸ hstime⟩⟩

/-- Three trades in each of two minutes, written one after the other. -/
def twoMinutes : List CollectorAct :=
  [threeTrades ⟨0, valid_zero⟩, threeTrades ⟨60000, by decide⟩] ++ goOn 0 5 ++ goOn 0 5 ++ goOn 5 5 ++ goOn 5 5

theorem undisturbed_twoMinutes : Undisturbed 0 twoMinutes := ⟨by decide +kernel, by decide +kernel⟩

theorem value_rollUp_twoMinutes : ∃ r ∈ (collect 0 twoMinutes).shared.rows, r.aggregation = .hour ∧
    r.value = (((collect 0 twoMinutes).shared.rows.filter fun s => s.metricType = r.metricType ∧
      s.aggregation = .minute ∧ getBucketKey 0 s.timestamp .hour = some r.timestamp).map
        AnalyticsMetric.value).sum := by
  have hhour : ∃ r ∈ (collect 0 twoMinutes).shared.rows, r.metricType.additive = true ∧ r.aggregation = .hour := by
    decide +kernel
  obtain ⟨r, hr, hadd, hagg⟩ := hhour
  exact ⟨r, hr, hagg, value_rollUp (by decide) undisturbed_twoMinutes r hr hadd hagg⟩

/-- A row has a row of every larger period over it. -/
theorem Undisturbed.larger (h : Undisturbed zone as) {a b : MetricAggregation} (hnests : Nests a b)
    {r : AnalyticsMetric} (hr : r ∈ (collect zone as).shared.rows) (ha : r.aggregation = a) {key : Instant}
    (hkey : getBucketKey zone r.timestamp b = some key) :
    (r.metricType, b, key) ∈ (collect zone as).shared.rows.map AnalyticsMetric.key := by
  obtain ⟨u, hu, hukey⟩ := h.whole.written r hr
  have hu : u ∈ (collect zone as).tasks.map upsertOf := List.mem_map.mpr ⟨_, hu, rfl⟩
  rw [upserts_collect, List.mem_flatMap] at hu
  obtain ⟨m, hm, hu⟩ := hu
  obtain ⟨a', -, rfl⟩ := List.mem_map.mp hu
  obtain ⟨timestamp, htime, he⟩ := Option.map_eq_some_iff.mp hukey
  simp only [AnalyticsMetric.key, Recording.upsert, Prod.mk.injEq] at he htime
  obtain ⟨htype, rfl, rfl⟩ := he
  obtain ⟨s, hs, hstype, rfl, hstime⟩ := h.covered hm b
  refine List.mem_map.mpr ⟨s, hs, ?_⟩
  have : key = s.timestamp := by
    rw [getBucketKey_getBucketKey (ha ▸ hnests) htime, hstime] at hkey
    exact (Option.some.inj hkey).symm
  rw [AnalyticsMetric.key, this, hstype, htype]

theorem aggregateAll_nil (zone : Int) (newId : List AnalyticsMetric → Uuid) (db : MetricsTable)
    (as : List MetricAggregation) : aggregateAll zone newId [] as db 0 = (db, 0, true) := by
  induction as with
  | nil => rfl
  | cons a as ih => exact ih

theorem saveGroups_conflict {newId : List AnalyticsMetric → Uuid} {a : MetricAggregation} {key : Instant}
    {m : AnalyticsMetric} {rest : List AnalyticsMetric} {db : MetricsTable} {processed : Nat}
    {groups : List (Instant × AnalyticsMetric × List AnalyticsMetric)}
    (h : (m.metricType, a, key) ∈ db.rows.map AnalyticsMetric.key) :
    saveGroups newId a ((key, m, rest) :: groups) db processed = (db, processed, false) := by
  rw [saveGroups, MetricsTable.add, dif_neg]
  exact fun hnew => hnew.2 h

theorem mem_of_mapM_some {α β : Type} {f : α → Option β} {l : List α} {l' : List β} (h : l.mapM f = some l') :
    l'.length = l.length ∧ ∀ y ∈ l', ∃ x ∈ l, f x = some y := by
  induction l generalizing l' with
  | nil =>
    cases h
    exact ⟨rfl, by simp⟩
  | cons x l ih =>
    rw [List.mapM_cons] at h
    obtain ⟨y, hy, h⟩ := Option.bind_eq_some_iff.mp h
    obtain ⟨ys, hys, h⟩ := Option.bind_eq_some_iff.mp h
    cases h
    obtain ⟨hlen, hmem⟩ := ih hys
    refine ⟨by simp [hlen], ?_⟩
    rintro z (_ | ⟨_, hz⟩)
    · exact ⟨x, .head _, hy⟩
    · obtain ⟨x', hx', hfx⟩ := hmem z hz
      exact ⟨x', .tail _ hx', hfx⟩

/-- The sums of the job are in the table already: every row it inserts meets the unique index. -/
theorem processAggregationJob_failed (h : Undisturbed zone as) (newId : List AnalyticsMetric → Uuid)
    (metricTypes : List MetricType) (dateFrom dateTo : Instant) :
    processAggregationJob zone newId metricTypes dateFrom dateTo (collect zone as).shared =
      ((collect zone as).shared,
        { status := if rawMetrics metricTypes dateFrom dateTo (collect zone as).shared = [] then .completed
            else .failed
          totalRecords := (rawMetrics metricTypes dateFrom dateTo (collect zone as).shared).length
          processedRecords := 0 }) := by
  unfold processAggregationJob
  generalize hraw : rawMetrics metricTypes dateFrom dateTo (collect zone as).shared = raw
  have hminute : ∀ r ∈ raw, r ∈ (collect zone as).shared.rows ∧ r.aggregation = .minute := by
    intro r hr
    rw [← hraw, rawMetrics, List.mem_filter, decide_eq_true_eq] at hr
    exact ⟨hr.1, hr.2.1⟩
  by_cases hnil : raw = []
  · subst hnil
    simp only [aggregateAll_nil, if_true, List.length_nil]
  · have hfirst : aggregateAll zone newId raw [.hour, .day, .week, .month] (collect zone as).shared 0 =
        ((collect zone as).shared, 0, false) := by
      rw [aggregateAll]
      cases hkeyed : raw.mapM fun m => (getBucketKey zone m.timestamp .hour).map fun key => (key, m) with
      | none => rfl
      | some keyed =>
        obtain ⟨hlen, hmem⟩ := mem_of_mapM_some hkeyed
        cases hgroups : groups Prod.fst keyed with
        | nil =>
          obtain ⟨x, hx⟩ := List.exists_mem_of_ne_nil keyed fun he => hnil (by simpa [he] using hlen.symm)
          have : x.1 ∈ (groups Prod.fst keyed).map Prod.fst := mem_keys_groupFold.mpr ⟨x, hx, rfl⟩
          rw [hgroups] at this
          cases this
        | cons g gs =>
          obtain ⟨key, ⟨k, m⟩, l⟩ := g
          -- the first group has its row
          have hfilter := mem_groups.mp (hgroups ▸ List.mem_cons_self (a := (key, (k, m), l)) (l := gs))
          have hin : (k, m) ∈ keyed.filter fun x => x.1 = key := by
            rw [hfilter]
            exact .head _
          rw [List.mem_filter, decide_eq_true_eq] at hin
          obtain ⟨hin, rfl⟩ := hin
          obtain ⟨m', hm', he⟩ := hmem _ hin
          obtain ⟨k', hk', he⟩ := Option.map_eq_some_iff.mp he
          cases he
          obtain ⟨hrow, hminute⟩ := hminute m hm'
          have hlarger := h.larger (.inr (.inl rfl)) hrow hminute hk'
          simp only [hgroups, List.map_cons, saveGroups_conflict hlarger]
    simp only [hfirst, if_neg hnil, Bool.false_eq_true, if_false]

theorem processAggregationJob_twoMinutes :
    (processAggregationJob 0 List.length [.tradeCount] ⟨0, by decide⟩ ⟨60000, by decide⟩
      (collect 0 twoMinutes).shared).2 = ⟨.failed, 2, 0⟩ := by
  rw [processAggregationJob_failed undisturbed_twoMinutes]
  have : rawMetrics [.tradeCount] ⟨0, by decide⟩ ⟨60000, by decide⟩ (collect 0 twoMinutes).shared =
      (collect 0 twoMinutes).shared.rows.filter fun r => r.aggregation = .minute := by decide +kernel
  rw [this, if_neg (by decide +kernel)]
  exact congrArg (fun n => (⟨.failed, n, 0⟩ : PipelineJob)) (by decide +kernel)

end Undisturbed

end Metrics
end Analytics
end TradeCore
