import Mathlib.Data.List.Nodup
import Mathlib.Data.List.Perm.Basic
import TradeCore.Risk.Liquidation

/-!
# TradeCore.Risk.Cascade

`detectCascade`: the positions at risk, each with those that share a pool or a counterparty with it. The
loop goes through the positions at risk and passes over those that an earlier group has taken.

`detectCascade_cascade`: every position at risk is in one group, every group is headed by one, and what
else is in a group shares the pool or the counterparty of its head. A position at risk that is not a
head is not followed further, so what is only exposed to it is missed (`detectCascade_missed`).
-/

namespace TradeCore
namespace Risk
namespace LiquidationRiskService

/-- `new Map(positions.map(…)).get(id)`: of two positions with one id the last. -/
def byId (positions : List Position) (id : String) : Option Position :=
  positions.reverse.find? fun position => position.id = id

def riskOf (risks : List LiquidationRisk) (id : String) : Option LiquidationRisk :=
  risks.find? fun risk => risk.positionId = id

/-- An empty text is as good as none. -/
def poolMembers (positions : List Position) (seed : Position) : List Position :=
  if seed.poolId.getD "" = "" then []
  else positions.filter fun position => position.poolId = seed.poolId ∧ position.id ≠ seed.id

def counterpartyMembers (positions : List Position) (seed : Position) : List Position :=
  if seed.counterparty.getD "" = "" then []
  else positions.filter fun position => position.counterparty = seed.counterparty ∧ position.id ≠ seed.id ∧
    (poolMembers positions seed).all fun member => member.id ≠ position.id

/-- One pass of the loops over the members. -/
def addMember (risks : List LiquidationRisk) (depth : ℕ) (acc : List LiquidationRisk × List String)
    (member : Position) : List LiquidationRisk × List String :=
  match riskOf risks member.id with
  | none => acc
  | some memberRisk =>
    if member.id ∈ acc.2 then acc
    else (acc.1 ++ [{ memberRisk with cascadeDepth := depth }], acc.2 ++ [member.id])

/-- What the loop over the positions at risk has gathered. -/
structure Groups where
  groups : List (List LiquidationRisk)
  seen : List String
  deriving DecidableEq, Repr

def addGroup (risks : List LiquidationRisk) (positions : List Position) (s : Groups)
    (risk : LiquidationRisk) : Groups :=
  if risk.positionId ∈ s.seen then s
  else
    let seed := (byId positions risk.positionId).toList
    let acc := (seed.flatMap (poolMembers positions)).foldl (addMember risks 1) ([], s.seen)
    let acc := (seed.flatMap (counterpartyMembers positions)).foldl (addMember risks 2) acc
    ⟨s.groups ++ [{ risk with cascadeDepth := 0 } :: acc.1], acc.2 ++ [risk.positionId]⟩

def detectCascade (risks : List LiquidationRisk) (positions : List Position) :
    List (List LiquidationRisk) :=
  ((risks.filter LiquidationRisk.atRisk).foldl (addGroup risks positions) ⟨[], []⟩).groups

/-! ## What the groups are -/

def idsOf (groups : List (List LiquidationRisk)) : List String :=
  groups.flatten.map LiquidationRisk.positionId

/-- The position shares the pool of the seed, or its counterparty at a depth of two. -/
def Exposed (positions : List Position) (seed : Position) (depth : ℕ) (position : Position) : Prop :=
  depth = 1 ∧ position ∈ poolMembers positions seed ∨
    depth = 2 ∧ position ∈ counterpartyMembers positions seed

/-- The entry is the risk of a position that is exposed to the seed. -/
def Member (risks : List LiquidationRisk) (positions : List Position) (seed : Position)
    (entry : LiquidationRisk) : Prop :=
  ∃ position risk, Exposed positions seed entry.cascadeDepth position ∧
    riskOf risks position.id = some risk ∧ entry = { risk with cascadeDepth := entry.cascadeDepth }

/-- A group with its head. -/
structure Headed (risks : List LiquidationRisk) (positions : List Position) (head : LiquidationRisk)
    (group : List LiquidationRisk) : Prop where
  risk : head ∈ risks
  atRisk : head.atRisk = true
  members : ∃ rest, group = { head with cascadeDepth := 0 } :: rest ∧
    ∀ entry ∈ rest, ∃ seed ∈ byId positions head.positionId, Member risks positions seed entry

structure Cascade (risks : List LiquidationRisk) (positions : List Position)
    (groups : List (List LiquidationRisk)) : Prop where
  /-- No position is listed twice. -/
  once : (idsOf groups).Nodup
  /-- Every position at risk is listed. -/
  covered : ∀ risk ∈ risks, risk.atRisk = true → risk.positionId ∈ idsOf groups
  /-- What is listed heads its group, or is exposed to the head of its group, as its depth says. -/
  headed : ∀ group ∈ groups, ∃ head, Headed risks positions head group
  /-- What is exposed to a head is listed. -/
  exposed : ∀ group ∈ groups, ∀ head ∈ group.head?, ∀ seed ∈ byId positions head.positionId,
    ∀ depth position, Exposed positions seed depth position → (riskOf risks position.id).isSome = true →
      position.id ∈ idsOf groups

theorem positionId_of_riskOf {risks : List LiquidationRisk} {id : String} {risk : LiquidationRisk}
    (h : riskOf risks id = some risk) : risk.positionId = id := by
  simpa using List.find?_some h

theorem id_of_byId {positions : List Position} {id : String} {seed : Position}
    (h : byId positions id = some seed) : seed.id = id := by
  simpa using List.find?_some h

theorem Exposed.id_ne {positions : List Position} {seed position : Position} {depth : ℕ}
    (h : Exposed positions seed depth position) : position.id ≠ seed.id := by
  rcases h with ⟨-, h⟩ | ⟨-, h⟩
  · unfold poolMembers at h
    split at h
    · cases h
    · simp only [List.mem_filter, decide_eq_true_eq] at h
      exact h.2.2
  · unfold counterpartyMembers at h
    split at h
    · cases h
    · simp only [List.mem_filter, decide_eq_true_eq] at h
      exact h.2.2.1

section Members

variable {risks : List LiquidationRisk} {depth : ℕ} {members : List Position} {seen : List String}

/-- What a loop over members adds to a group. -/
structure Adds (risks : List LiquidationRisk) (depth : ℕ) (members : List Position) (seen : List String)
    (added : List LiquidationRisk) : Prop where
  nodup : seen.Nodup → (seen ++ added.map LiquidationRisk.positionId).Nodup
  entries : ∀ entry ∈ added, ∃ position ∈ members, ∃ risk, riskOf risks position.id = some risk ∧
    entry = { risk with cascadeDepth := depth }
  complete : ∀ position ∈ members, (riskOf risks position.id).isSome = true →
    position.id ∈ seen ++ added.map LiquidationRisk.positionId

/-- A member without a risk, or one that is in a group already, adds nothing. -/
theorem Adds.skip {member : Position} {added : List LiquidationRisk}
    (h : Adds risks depth members seen added)
    (hmember : (riskOf risks member.id).isSome = true →
      member.id ∈ seen ++ added.map LiquidationRisk.positionId) :
    Adds risks depth (member :: members) seen added where
  nodup := h.nodup
  entries entry he := by
    obtain ⟨position, hp, hentry⟩ := h.entries entry he
    exact ⟨position, .tail _ hp, hentry⟩
  complete position hp hsome := by
    rcases List.mem_cons.mp hp with rfl | hp
    · exact hmember hsome
    · exact h.complete position hp hsome

theorem adds_foldl (risks : List LiquidationRisk) (depth : ℕ) (members : List Position)
    (group : List LiquidationRisk) (seen : List String) :
    ∃ added, members.foldl (addMember risks depth) (group, seen) =
        (group ++ added, seen ++ added.map LiquidationRisk.positionId) ∧
      Adds risks depth members seen added := by
  induction members generalizing group seen with
  | nil => exact ⟨[], by simp, by simp, by simp, by simp⟩
  | cons member members ih =>
    rw [List.foldl_cons, addMember]
    cases hrisk : riskOf risks member.id with
    | none =>
      obtain ⟨added, hfold, hadds⟩ := ih group seen
      exact ⟨added, hfold, hadds.skip fun hsome => by simp [hrisk] at hsome⟩
    | some risk =>
      have hid : risk.positionId = member.id := positionId_of_riskOf hrisk
      by_cases hseen : member.id ∈ seen
      · simp only [if_pos hseen]
        obtain ⟨added, hfold, hadds⟩ := ih group seen
        exact ⟨added, hfold, hadds.skip fun _ => List.mem_append_left _ hseen⟩
      · simp only [if_neg hseen]
        obtain ⟨added, hfold, hadds⟩ := ih (group ++ [{ risk with cascadeDepth := depth }]) (seen ++ [member.id])
        have hshift : seen ++ ({ risk with cascadeDepth := depth } :: added).map LiquidationRisk.positionId =
            seen ++ [member.id] ++ added.map LiquidationRisk.positionId := by simp [hid]
        refine ⟨{ risk with cascadeDepth := depth } :: added, ?_, fun hnodup => ?_, fun entry he => ?_,
          fun position hp hsome => ?_⟩
        · rw [hfold, hshift]
          simp
        · rw [hshift]
          refine hadds.nodup (List.nodup_append.mpr ⟨hnodup, List.nodup_singleton _, fun a ha b hb he => ?_⟩)
          rw [List.mem_singleton.mp hb] at he
          exact hseen (he ▸ ha)
        · rcases List.mem_cons.mp he with rfl | he
          · exact ⟨member, .head _, risk, hrisk, rfl⟩
          · obtain ⟨position, hp, hentry⟩ := hadds.entries entry he
            exact ⟨position, .tail _ hp, hentry⟩
        · rw [hshift]
          rcases List.mem_cons.mp hp with rfl | hp
          · simp
          · exact hadds.complete position hp hsome

end Members

section Loop

variable {risks : List LiquidationRisk} {positions : List Position} {s : Groups} {risk : LiquidationRisk}

theorem member_of_adds {depth : ℕ} {members : List Position} {seen : List String}
    {added : List LiquidationRisk} {entry : LiquidationRisk} (h : Adds risks depth members seen added)
    (he : entry ∈ added) {id : String}
    (hmembers : ∀ position ∈ members, ∃ seed ∈ byId positions id, Exposed positions seed depth position) :
    ∃ seed ∈ byId positions id, Member risks positions seed entry := by
  obtain ⟨position, hposition, risk, hrisk, rfl⟩ := h.entries entry he
  obtain ⟨seed, hseed, hexposed⟩ := hmembers position hposition
  exact ⟨seed, hseed, position, risk, hexposed, hrisk, rfl⟩

theorem addGroup_new (risks : List LiquidationRisk) (positions : List Position)
    (h : risk.positionId ∉ s.seen) :
    ∃ added : List LiquidationRisk, addGroup risks positions s risk =
        ⟨s.groups ++ [{ risk with cascadeDepth := 0 } :: added],
          s.seen ++ added.map LiquidationRisk.positionId ++ [risk.positionId]⟩ ∧
      (s.seen.Nodup → (s.seen ++ added.map LiquidationRisk.positionId).Nodup) ∧
      (∀ entry ∈ added, ∃ seed ∈ byId positions risk.positionId, Member risks positions seed entry) ∧
      ∀ seed ∈ byId positions risk.positionId, ∀ depth position, Exposed positions seed depth position →
        (riskOf risks position.id).isSome = true →
          position.id ∈ s.seen ++ added.map LiquidationRisk.positionId := by
  let seed := (byId positions risk.positionId).toList
  obtain ⟨pool, hpool, haddsPool⟩ := adds_foldl risks 1 (seed.flatMap (poolMembers positions)) [] s.seen
  obtain ⟨others, hothers, haddsOthers⟩ := adds_foldl risks 2 (seed.flatMap (counterpartyMembers positions))
    ([] ++ pool) (s.seen ++ pool.map LiquidationRisk.positionId)
  have hseen : s.seen ++ pool.map LiquidationRisk.positionId ++ others.map LiquidationRisk.positionId =
      s.seen ++ (pool ++ others).map LiquidationRisk.positionId := by simp
  refine ⟨pool ++ others, ?_, ?_, ?_, ?_⟩
  · simp only [addGroup, if_neg h]
    rw [hpool, hothers, hseen, List.nil_append]
  · rw [← hseen]
    exact fun hnodup => haddsOthers.nodup (haddsPool.nodup hnodup)
  · intro entry he
    rcases List.mem_append.mp he with he | he
    · refine member_of_adds haddsPool he fun position hposition => ?_
      obtain ⟨seed, hseed, hin⟩ := List.mem_flatMap.mp hposition
      exact ⟨seed, Option.mem_toList.mp hseed, .inl ⟨rfl, hin⟩⟩
    · refine member_of_adds haddsOthers he fun position hposition => ?_
      obtain ⟨seed, hseed, hin⟩ := List.mem_flatMap.mp hposition
      exact ⟨seed, Option.mem_toList.mp hseed, .inr ⟨rfl, hin⟩⟩
  · rw [← hseen]
    intro seed hseed depth position hexposed hsome
    rcases hexposed with ⟨-, hin⟩ | ⟨-, hin⟩
    · refine List.mem_append_left _ (haddsPool.complete position ?_ hsome)
      exact List.mem_flatMap.mpr ⟨seed, Option.mem_toList.mpr hseed, hin⟩
    · refine haddsOthers.complete position ?_ hsome
      exact List.mem_flatMap.mpr ⟨seed, Option.mem_toList.mpr hseed, hin⟩

theorem idsOf_append_group (groups : List (List LiquidationRisk)) (head : LiquidationRisk)
    (added : List LiquidationRisk) :
    (idsOf (groups ++ [{ head with cascadeDepth := 0 } :: added])).Perm
      (idsOf groups ++ added.map LiquidationRisk.positionId ++ [head.positionId]) := by
  simp only [idsOf, List.flatten_append, List.flatten_cons, List.flatten_nil, List.append_nil, List.map_append,
    List.map_cons, List.append_assoc]
  exact (List.perm_append_singleton _ _).symm.append_left _

/-- The groups after the risks `done`. -/
structure Gathered (risks : List LiquidationRisk) (positions : List Position) (done : List LiquidationRisk)
    (s : Groups) : Prop where
  seen : s.seen.Perm (idsOf s.groups)
  nodup : s.seen.Nodup
  covered : ∀ risk ∈ done, risk.positionId ∈ s.seen
  headed : ∀ group ∈ s.groups, ∃ head, Headed risks positions head group
  exposed : ∀ group ∈ s.groups, ∀ head ∈ group.head?, ∀ seed ∈ byId positions head.positionId,
    ∀ depth position, Exposed positions seed depth position → (riskOf risks position.id).isSome = true →
      position.id ∈ s.seen

theorem Gathered.step {done : List LiquidationRisk} (h : Gathered risks positions done s)
    (hrisk : risk ∈ risks) (hatRisk : risk.atRisk = true) :
    Gathered risks positions (done ++ [risk]) (addGroup risks positions s risk) := by
  by_cases hin : risk.positionId ∈ s.seen
  · rw [addGroup, if_pos hin]
    refine ⟨h.seen, h.nodup, fun r hr => ?_, h.headed, h.exposed⟩
    rcases List.mem_append.mp hr with hr | hr
    · exact h.covered r hr
    · rwa [List.mem_singleton.mp hr]
  · obtain ⟨added, hgroup, hnodup, hentries, hexposed⟩ := addGroup_new risks positions hin
    have hkeep : ∀ {id}, id ∈ s.seen → id ∈ (addGroup risks positions s risk).seen := by
      intro id hid
      rw [hgroup]
      exact List.mem_append_left _ (List.mem_append_left _ hid)
    have hself : risk.positionId ∈ (addGroup risks positions s risk).seen := by
      rw [hgroup]
      exact List.mem_append_right _ (.head _)
    constructor
    case seen =>
      rw [hgroup]
      exact ((h.seen.append_right _).append_right _).trans (idsOf_append_group _ _ _).symm
    case nodup =>
      rw [hgroup]
      refine List.nodup_append.mpr ⟨hnodup h.nodup, List.nodup_singleton _, fun id hid id' hid' he => ?_⟩
      rw [List.mem_singleton.mp hid'] at he
      subst he
      -- the head is not among its own members
      rcases List.mem_append.mp hid with hid | hid
      · exact hin hid
      · obtain ⟨entry, he, hentry⟩ := List.mem_map.mp hid
        obtain ⟨seed, hseed, position, memberRisk, hexp, hmember, heq⟩ := hentries entry he
        have hposition : position.id = risk.positionId := by
          rw [← hentry, heq, positionId_of_riskOf hmember]
        exact hexp.id_ne (hposition.trans (id_of_byId hseed).symm)
    case covered =>
      intro r hr
      rcases List.mem_append.mp hr with hr | hr
      · exact hkeep (h.covered r hr)
      · rwa [List.mem_singleton.mp hr]
    case headed =>
      intro group hg
      rw [hgroup, List.mem_append, List.mem_singleton] at hg
      rcases hg with hg | rfl
      · exact h.headed group hg
      · exact ⟨risk, hrisk, hatRisk, added, rfl, hentries⟩
    case exposed =>
      intro group hg head hhead seed hseed depth position hexp hsome
      rw [hgroup, List.mem_append, List.mem_singleton] at hg
      rcases hg with hg | rfl
      · exact hkeep (h.exposed group hg head hhead seed hseed depth position hexp hsome)
      · obtain rfl := Option.some.inj hhead
        rw [hgroup]
        exact List.mem_append_left _ (hexposed seed hseed depth position hexp hsome)

theorem gathered_foldl (todo : List LiquidationRisk) {done : List LiquidationRisk}
    (h : Gathered risks positions done s) (htodo : ∀ risk ∈ todo, risk ∈ risks ∧ risk.atRisk = true) :
    Gathered risks positions (done ++ todo) (todo.foldl (addGroup risks positions) s) := by
  induction todo generalizing done s with
  | nil => simpa using h
  | cons risk todo ih =>
    have hstep := h.step (htodo risk (.head _)).1 (htodo risk (.head _)).2
    have := ih hstep fun r hr => htodo r (.tail _ hr)
    rwa [List.append_assoc] at this

end Loop

theorem detectCascade_cascade (risks : List LiquidationRisk) (positions : List Position) :
    Cascade risks positions (detectCascade risks positions) := by
  have hstart : Gathered risks positions [] ⟨[], []⟩ :=
    ⟨.refl _, .nil, fun _ h => (by cases h), fun _ h => (by cases h), fun _ h => (by cases h)⟩
  have h := gathered_foldl (risks.filter LiquidationRisk.atRisk) hstart fun risk hr => List.mem_filter.mp hr
  refine ⟨h.seen.nodup_iff.mp h.nodup, fun risk hr hatRisk => ?_, h.headed, fun group hg head hhead seed hseed
    depth position hexp hsome => ?_⟩
  · exact h.seen.mem_iff.mp (h.covered risk (List.mem_filter.mpr ⟨hr, hatRisk⟩))
  · exact h.seen.mem_iff.mp (h.exposed group hg head hhead seed hseed depth position hexp hsome)

/-- What is listed: the positions at risk and what is exposed to a head, and nothing else. -/
theorem Cascade.mem_iff {risks : List LiquidationRisk} {positions : List Position}
    {groups : List (List LiquidationRisk)} (h : Cascade risks positions groups) {id : String} :
    id ∈ idsOf groups ↔ (∃ risk ∈ risks, risk.atRisk = true ∧ risk.positionId = id) ∨
      ∃ group ∈ groups, ∃ head ∈ group.head?, ∃ seed ∈ byId positions head.positionId, ∃ depth position,
        Exposed positions seed depth position ∧ (riskOf risks position.id).isSome = true ∧ position.id = id := by
  constructor
  · intro hid
    obtain ⟨entry, hentry, rfl⟩ := List.mem_map.mp hid
    obtain ⟨group, hgroup, hin⟩ := List.mem_flatten.mp hentry
    obtain ⟨head, hrisk, hatRisk, rest, rfl, hrest⟩ := h.headed group hgroup
    rcases List.mem_cons.mp hin with rfl | hin
    · exact .inl ⟨head, hrisk, hatRisk, rfl⟩
    · obtain ⟨seed, hseed, position, risk, hexposed, hriskOf, heq⟩ := hrest entry hin
      refine .inr ⟨_, hgroup, _, rfl, seed, hseed, _, position, hexposed, by rw [hriskOf]; rfl, ?_⟩
      rw [heq, positionId_of_riskOf hriskOf]
  · rintro (⟨risk, hrisk, hatRisk, rfl⟩ | ⟨group, hgroup, head, hhead, seed, hseed, depth, position, hexposed,
      hsome, rfl⟩)
    · exact h.covered risk hrisk hatRisk
    · exact h.exposed group hgroup head hhead seed hseed depth position hexposed hsome

/-- Two positions of one pool at risk, and a third one that shares a counterparty with the second. -/
def chained : List Position :=
  [⟨"a", "XLM", some "p", 1, 100, 95, none, some 10, none, false⟩,
    ⟨"b", "XLM", some "p", 1, 100, 95, none, some 10, some "maker", false⟩,
    ⟨"c", "XLM", none, 1, 100, 100, none, none, some "maker", false⟩]

/-- Whether the third one is listed depends on the order of the first two. -/
theorem detectCascade_missed :
    (detectCascade (assessAll chained) chained).map (·.map LiquidationRisk.positionId) = [["a", "b"]] ∧
      (detectCascade (assessAll chained).reverse chained).map (·.map LiquidationRisk.positionId) =
        [["b", "a", "c"]] := by
  decide +kernel

end LiquidationRiskService
end Risk
end TradeCore
