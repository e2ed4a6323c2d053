import SwFactory.Blueprints.Parity

/-!
# When a document is one line

`read_shape` succeeds on an accepted document and says what the blueprint says
exactly under `SameLine`; each field contributes its own part.

Sources: `blueprint.py` (`loads`) and `dags/blueprints.py` (`read_shape`).
-/

namespace SwFactory
namespace Blueprints

open Machine

section Sections

variable {A : Alphabet}
variable {C : Coercion}
variable {data flat : Table}
variable {bp : Blueprint}

theorem Loaded.limits_cases (h : Loaded A C flat bp) :
    (flat.get? "limits" = none ∧ bp.limits = Limits.default) ∨
      ∃ t : Table, flat.get? "limits" = some (.table t) ∧ LoadedLimits C t bp.limits := by
  have hread := h.limits
  cases hv : flat.get? "limits" with
  | none =>
      rw [fieldOr_of_none hv] at hread
      exact Or.inl ⟨rfl, (Option.some.inj hread).symm⟩
  | some v =>
      rw [fieldOr_of_some hv] at hread
      obtain ⟨t, rfl, hloaded⟩ := Limits.read_spec hread
      exact Or.inr ⟨t, rfl, hloaded⟩

theorem Loaded.sandbox_cases (h : Loaded A C flat bp) :
    (flat.get? "sandbox" = none ∧ bp.sandbox.ttlS = 172800) ∨
      ∃ t : Table, flat.get? "sandbox" = some (.table t) ∧
        fieldOr t "ttl_s" 172800 (atLeast C 1) = some bp.sandbox.ttlS := by
  have hread := h.sandbox
  cases hv : flat.get? "sandbox" with
  | none =>
      rw [fieldOr_of_none hv] at hread
      exact Or.inl ⟨rfl, by rw [← Option.some.inj hread]; rfl⟩
  | some v =>
      rw [fieldOr_of_some hv] at hread
      obtain ⟨t, rfl, hloaded⟩ := SandboxSpec.read_spec hread
      exact Or.inr ⟨t, rfl, hloaded⟩

/-- A section that is validated as a table is looked up as one. -/
theorem section_eq {sec : String}
    (hsec : flat.get? sec = (data.get? sec).or ((inlined data).get? sec))
    (htable : flat.get? sec = none ∨ ∃ t : Table, flat.get? sec = some (.table t)) :
    fieldOr data sec ([] : Table) Toml.asTable = some (sectionOf data sec) := by
  refine fieldOr_table ?_
  cases hdata : data.get? sec with
  | none => exact Or.inl rfl
  | some v =>
      rw [hdata, Option.some_or] at hsec
      rw [hsec] at htable
      obtain ⟨t, ht⟩ := htable.resolve_left (by rintro ⟨⟩)
      exact Or.inr ⟨t, ht⟩

/-- The fields of the shape, one by one. -/
structure Reads (digit : Char → Option Nat) (data : Table) (bp : Blueprint)
    (limits : ScheduleLimits) (cron : Option Text) : Prop where
  cron : shapeCron (sectionOf data "trigger") = cron.map Toml.string
  trigger : shapeStart (shapeCron (sectionOf data "trigger")) (sectionOf data "trigger") =
      some (limits.origin.map Toml.datetime) ∧
    shapeRuns digit (shapeCron (sectionOf data "trigger")) (sectionOf data "trigger") =
      some limits.maxActiveRuns
  ttl : (intField digit (sectionOf data "sandbox") "ttl_s" 172800).bind timedelta =
    some limits.runTimeout
  order : shapeOrder data = some (bp.order.map Toml.string)
  gates : ∃ entries, shapeGates data = some entries ∧
    entries.map toldOf = bp.gates.map (fun g => (.string g.after, some g.mode))
  timeout : (intField digit (sectionOf data "limits") "stage_timeout_h" 3).bind
      (fun h => timedelta (3600 * h)) = some (3600 * bp.limits.stageTimeoutH)
  jobs : intField digit (sectionOf data "limits") "max_parallel_jobs" 4 = some limits.maxCells

theorem readShape_iff (hload : Loaded A C flat bp) (hflat : Flat data flat)
    (hname : bp.name ≠ "autonomous".toList) {limits : ScheduleLimits} {cron : Option Text}
    (stem : Text) (merge : Option Int) :
    (∃ shape, readShape A.digit stem merge data = some shape ∧ Agrees shape bp limits cron) ↔
      Reads A.digit data bp limits cron := by
  have htrigger : fieldOr data "trigger" ([] : Table) Toml.asTable =
      some (sectionOf data "trigger") := by
    refine fieldOr_table ?_
    rcases hload.trigger_cases hflat with ⟨t, hdata, -⟩ | ⟨hdata, -⟩ | ⟨hdata, -⟩
    · exact Or.inr ⟨t, hdata⟩
    · exact Or.inl hdata
    · exact Or.inl hdata
  have hlimits := section_eq (hflat.carried "limits" (by simp))
    (hload.limits_cases.imp And.left (Exists.imp fun _ => And.left))
  have hsandbox := section_eq (hflat.carried "sandbox" (by simp))
    (hload.sandbox_cases.imp And.left fun ⟨t, ht, _⟩ => ⟨t, ht⟩)
  have hblueprint : fieldOr data "blueprint" ([] : Table) Toml.asTable = some (inlined data) :=
    fieldOr_table hflat.blueprint
  have hget : Dict.get? (inlined data) "name" = some (.string bp.name) :=
    hflat.name.symm.trans hload.name
  have hother : equalsText (inlined data) "name" "autonomous" = false := by
    rw [equalsText, hget]
    simpa [Toml.asString] using hname
  have hfilter : (Dict.get? (inlined data) "name").filter Toml.truthy =
      some (.string bp.name) := by
    rw [hget, Option.filter_eq_some_iff]
    exact ⟨rfl, by simpa [Toml.truthy] using hload.named⟩
  unfold readShape
  simp only [htrigger, hlimits, hsandbox, hblueprint, hother, hfilter, bind, Option.bind_some,
    Bool.false_eq_true, if_false, Option.getD_some]
  constructor
  · rintro ⟨shape, hshape, hagrees⟩
    simp only [Option.bind_eq_some_iff] at hshape
    obtain ⟨start, hstart, runs, hruns, ttl, httl, order, horder, gates, hgates, timeout, htimeout,
      jobs, hjobs, hshape⟩ := hshape
    cases hshape
    refine ⟨hagrees.cron, ⟨?_, ?_⟩, ?_, ?_, ⟨gates, hgates, hagrees.gates⟩, ?_, ?_⟩
    · rw [hstart, ← hagrees.start]
    · rw [hruns, ← hagrees.maxActiveRuns]
    · rw [← hagrees.runTimeout, Option.bind_eq_some_iff]
      exact httl
    · rw [horder, ← hagrees.order]
    · rw [← hagrees.stageTimeout, Option.bind_eq_some_iff]
      exact htimeout
    · rw [hjobs, ← hagrees.maxParallelJobs]
  · intro h
    obtain ⟨entries, hentries, htold⟩ := h.gates
    rw [h.trigger.1, h.trigger.2, h.ttl, h.order, hentries, h.timeout, h.jobs]
    exact ⟨_, rfl, ⟨rfl, h.cron, rfl, rfl, rfl, rfl, htold, rfl, rfl⟩⟩

end Sections

section Lines

variable {A : Alphabet}
variable {C : Coercion}
variable {data flat : Table}
variable {bp : Blueprint}

theorem LoadedLimits.positive {t : Table} {l : Limits} (h : LoadedLimits C t l) :
    1 ≤ l.stageTimeoutH := by
  have htimeout := h.timeout
  cases hv : t.get? "stage_timeout_h" with
  | none =>
      rw [fieldOr_of_none hv] at htimeout
      rw [← Option.some.inj htimeout]
      decide
  | some v =>
      rw [fieldOr_of_some hv] at htimeout
      exact (atLeast_eq_some.mp htimeout).2

theorem ttl_iff (hC : C.Lawful A.digit) (hload : Loaded A C flat bp) (hflat : Flat data flat)
    {runTimeout : Int} (htime : timedelta bp.sandbox.ttlS = some runTimeout) :
    (intField A.digit (sectionOf data "sandbox") "ttl_s" 172800).bind timedelta =
        some runTimeout ↔ SameNumber A.digit C data "sandbox" "ttl_s" 172800 := by
  rw [← number_iff (n := bp.sandbox.ttlS) hC (hflat.carried "sandbox" (by simp))
    hload.sandbox_cases, Option.bind_eq_some_iff]
  constructor
  · rintro ⟨ttl, hread, hsame⟩
    rw [hread, ← timedelta_eq_some hsame, ← timedelta_eq_some htime]
  · exact fun hread => ⟨_, hread, htime⟩

theorem jobs_iff (hC : C.Lawful A.digit) (hload : Loaded A C flat bp) (hflat : Flat data flat) :
    intField A.digit (sectionOf data "limits") "max_parallel_jobs" 4 =
        some bp.limits.maxParallelJobs ↔
      SameNumber A.digit C data "limits" "max_parallel_jobs" 4 := by
  refine number_iff hC (hflat.carried "limits" (by simp)) ?_
  rcases hload.limits_cases with ⟨hnone, heq⟩ | ⟨t, ht, h⟩
  · exact Or.inl ⟨hnone, by rw [heq]; rfl⟩
  · exact Or.inr ⟨t, ht, h.jobs⟩

theorem timeout_iff (hC : C.Lawful A.digit) (hload : Loaded A C flat bp) (hflat : Flat data flat) :
    (intField A.digit (sectionOf data "limits") "stage_timeout_h" 3).bind
        (fun h => timedelta (3600 * h)) = some (3600 * bp.limits.stageTimeoutH) ↔
      SameNumber A.digit C data "limits" "stage_timeout_h" 3 ∧
        ∀ (t : Table) v n, data.get? "limits" = some (.table t) →
          t.get? "stage_timeout_h" = some v → int A.digit v = some n → n < 24000000000 := by
  have hnumber : intField A.digit (sectionOf data "limits") "stage_timeout_h" 3 =
      some bp.limits.stageTimeoutH ↔ SameNumber A.digit C data "limits" "stage_timeout_h" 3 := by
    refine number_iff hC (hflat.carried "limits" (by simp)) ?_
    rcases hload.limits_cases with ⟨hnone, heq⟩ | ⟨t, ht, h⟩
    · exact Or.inl ⟨hnone, by rw [heq]; rfl⟩
    · exact Or.inr ⟨t, ht, h.timeout⟩
  have hpos : 1 ≤ bp.limits.stageTimeoutH := by
    rcases hload.limits_cases with ⟨-, heq⟩ | ⟨t, -, h⟩
    · rw [heq]
      decide
    · exact h.positive
  rw [← hnumber, Option.bind_eq_some_iff]
  constructor
  · rintro ⟨h, hread, htime⟩
    obtain rfl : h = bp.limits.stageTimeoutH := by
      have := timedelta_eq_some htime
      omega
    refine ⟨hread, fun t v n hdata hv hint => ?_⟩
    have hsection : sectionOf data "limits" = t := by
      rw [sectionOf, hdata]
      rfl
    rw [hsection, intField, fieldOr_of_some hv, hint] at hread
    rw [Option.some.inj hread]
    exact (hours_isSome_iff hpos).mp htime
  · rintro ⟨hread, hbound⟩
    refine ⟨_, hread, (hours_isSome_iff hpos).mpr ?_⟩
    cases hdata : data.get? "limits" with
    | none =>
        have hsection : sectionOf data "limits" = [] := by
          rw [sectionOf, hdata]
          rfl
        rw [hsection] at hread
        have hdefault : (3 : Int) = bp.limits.stageTimeoutH := Option.some.inj hread
        omega
    | some w =>
        have htable := section_eq (hflat.carried "limits" (by simp))
          (hload.limits_cases.imp And.left (Exists.imp fun _ => And.left))
        rw [fieldOr_of_some hdata] at htable
        obtain rfl := asTable_eq_some htable
        cases hv : (sectionOf data "limits").get? "stage_timeout_h" with
        | none =>
            rw [intField, fieldOr_of_none hv] at hread
            have hdefault : (3 : Int) = bp.limits.stageTimeoutH := Option.some.inj hread
            omega
        | some v =>
            rw [intField, fieldOr_of_some hv] at hread
            exact hbound _ v _ hdata hv hread

/-- The shape agrees on everything but the expression under `SameLine`. -/
theorem reads_iff (hC : C.Lawful A.digit) (hload : Loaded A C flat bp) (hflat : Flat data flat)
    {limits : ScheduleLimits} (horigin : limits.origin = bp.trigger.start)
    (hruns : limits.maxActiveRuns = bp.trigger.activeRuns)
    (hcells : limits.maxCells = bp.limits.maxParallelJobs)
    (htime : timedelta bp.sandbox.ttlS = some limits.runTimeout)
    (haware : limits.origin.all Moment.aware = true) {cron : Option Text} :
    Reads A.digit data bp limits cron ↔ SameLine A.digit C data ∧ bp.cronInForce = cron := by
  have htrigger := trigger_iff hload hflat hC (horigin ▸ haware)
  constructor
  · intro h
    have hsame : SameTrigger A.digit C data := htrigger.mp (by
      rw [← horigin, ← hruns]
      exact h.trigger)
    have htimeout := (timeout_iff hC hload hflat).mp h.timeout
    refine ⟨?_, ?_⟩
    · exact
        { order := (order_iff hload hflat).mp h.order
          gates := (gates_iff hload hflat).mp h.gates
          start := hsame.start
          runs := hsame.runs
          trigger := hsame.trigger
          ttl := (ttl_iff hC hload hflat htime).mp h.ttl
          jobs := (jobs_iff hC hload hflat).mp (hcells ▸ h.jobs)
          timeout := htimeout.1
          bounded := htimeout.2 }
    · have hcron := h.cron
      rw [cron_eq hload hflat hsame] at hcron
      exact Option.map_injective (fun _ _ heq => by injection heq) hcron
  · rintro ⟨h, rfl⟩
    have hsame : SameTrigger A.digit C data := ⟨h.start, h.runs, h.trigger⟩
    exact
      { cron := cron_eq hload hflat hsame
        trigger := by
          rw [horigin, hruns]
          exact htrigger.mpr hsame
        ttl := (ttl_iff hC hload hflat htime).mpr h.ttl
        order := (order_iff hload hflat).mpr h.order
        gates := (gates_iff hload hflat).mpr h.gates
        timeout := (timeout_iff hC hload hflat).mpr ⟨h.timeout, h.bounded⟩
        jobs := by
          rw [hcells]
          exact (jobs_iff hC hload hflat).mpr h.jobs }

end Lines

/-- `read_shape` succeeds and agrees with the blueprint; `cron` is the expression it is to have. -/
def ReadsSame (digit : Char → Option Nat) (stem : Text) (merge : Option Int) (data : Table)
    (bp : Blueprint) (cron : Option Text) : Prop :=
  ∃ limits, bp.scheduleLimits = some limits ∧
    ∃ shape, readShape digit stem merge data = some shape ∧ Agrees shape bp limits cron

/-- **One line.**  Of an accepted document the two readers say the same exactly under
`SameLine`; the declared expression, beside the one in force, under `CronOfItsKind` as well. -/
theorem same_line_iff
    (A : Alphabet)
    (C : Coercion)
    (hC : C.Lawful A.digit)
    (stem : Text)
    (merge : Option Int)
    (data : Table)
    (bp : Blueprint)
    (h : loads A C data = some bp)
    (hname : bp.name ≠ "autonomous".toList) :
    (ReadsSame A.digit stem merge data bp bp.cronInForce ↔ SameLine A.digit C data) ∧
      (ReadsSame A.digit stem merge data bp bp.trigger.cron ↔
        SameLine A.digit C data ∧ CronOfItsKind data) := by
  obtain ⟨flat, hflat, hload, hshape⟩ := loads_spec h
  obtain ⟨limits, hlimits, horigin, hruns, hcells, htime, haware⟩ := scheduleLimits_spec hshape
  have hsame : ∀ cron, ReadsSame A.digit stem merge data bp cron ↔
      SameLine A.digit C data ∧ bp.cronInForce = cron := by
    intro cron
    rw [← reads_iff hC hload hflat horigin hruns hcells htime haware,
      ← readShape_iff hload hflat hname stem merge]
    constructor
    · rintro ⟨limits', hlimits', hagrees⟩
      rw [hlimits] at hlimits'
      cases hlimits'
      exact hagrees
    · exact fun hagrees => ⟨limits, hlimits, hagrees⟩
  refine ⟨?_, ?_⟩
  · rw [hsame]
    exact and_iff_left rfl
  · rw [hsame, cronInForce_iff hload hflat]

section Failing

/-- The digits of ASCII. -/
def ascii : Alphabet where
  digit c := if '0' ≤ c && c ≤ '9' then some (c.toNat - '0'.toNat) else none
  isDigit c := '0' ≤ c && c ≤ '9'

/-- Whole numbers in all their types, and no dates but those of TOML. -/
def wholeNumbers : Coercion where
  int
    | .float q => if q.den = 1 then some q.num else none
    | v => int ascii.digit v
  float
    | .float q => some q
    | .integer n => some n
    | _ => none
  datetime
    | .datetime m => some m
    | _ => none
  literalOne
    | .integer n => n == 1
    | _ => false

theorem wholeNumbers_lawful : wholeNumbers.Lawful ascii.digit where
  integer _ := rfl
  boolean _ _ h := (Option.some.inj h).symm
  float q n h := by
    change (if q.den = 1 then some q.num else none) = some n at h
    split at h
    · next hden =>
        rw [← Option.some.inj h]
        exact (Rat.den_eq_one_iff q).mp hden |>.symm
    · cases h
  string _ _ _ h hint := Option.some.inj (h.symm.trans hint)
  empty := by decide
  other v n h := by
    cases v with
    | integer k => exact Or.inl ⟨k, rfl⟩
    | boolean b => exact Or.inr (Or.inl ⟨b, rfl⟩)
    | float q => exact Or.inr (Or.inr (Or.inl ⟨q, rfl⟩))
    | string text => exact Or.inr (Or.inr (Or.inr ⟨text, rfl⟩))
    | _ => cases h
  datetime _ := rfl

def appTargets : String × Toml :=
  ("targets", .array [.table [("repo", .string "acme/app".toList)]])

def shortOrder : String × Toml :=
  ("order", .array [.string "intent".toList, .string "deliver".toList])

/-- The order stands in `[stages]`, ... -/
def stagedOrder : Table :=
  [("blueprint", .table [("name", .string "demo".toList)]), appTargets,
    ("stages", .table [shortOrder])]

/-- ... and in `[blueprint]`. -/
def inlinedOrder : Table :=
  [("blueprint", .table [("name", .string "demo".toList), shortOrder]), appTargets]

/-- The line of both documents. -/
def demoLine : Blueprint where
  name := "demo".toList
  description := []
  trigger := Trigger.default
  targets := [⟨"acme/app".toList, [], "main".toList⟩]
  order := ["intent".toList, "deliver".toList]
  gates := []
  limits := Limits.default
  policy := []
  review := ReviewSpec.default
  sandbox := SandboxSpec.default
  labels := ["factory".toList, "agent-authored".toList]
  workSource := none
  fusion := none

theorem staged_order_same_line :
    (ReadsSame ascii.digit [] none stagedOrder demoLine demoLine.cronInForce ↔
        SameLine ascii.digit wholeNumbers stagedOrder) ∧
      (ReadsSame ascii.digit [] none stagedOrder demoLine demoLine.trigger.cron ↔
        SameLine ascii.digit wholeNumbers stagedOrder ∧ CronOfItsKind stagedOrder) :=
  same_line_iff ascii wholeNumbers wholeNumbers_lawful [] none stagedOrder demoLine rfl (by decide)

/-- The validator takes an order that stands in `[blueprint]`; the parser of the DAGs raises. -/
theorem inlined_order_raises :
    ¬ ∀ (A : Alphabet) (C : Coercion), C.Lawful A.digit → ∀ stem merge data bp,
      loads A C data = some bp → bp.name ≠ "autonomous".toList →
        ReadsSame A.digit stem merge data bp bp.cronInForce := by
  intro h
  obtain ⟨_, -, shape, hshape, -⟩ := h ascii wholeNumbers wholeNumbers_lawful [] none inlinedOrder
    demoLine rfl (by decide)
  cases hshape

end Failing

end Blueprints
end SwFactory
