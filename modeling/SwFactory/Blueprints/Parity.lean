import SwFactory.Blueprints.Accepted
import SwFactory.Blueprints.Loader

/-!
# Two readers of one line

Of a document that `loads` accepts, `read_shape` reads each field alike exactly
under the part of `SameLine` that is about this field.

Sources: `blueprint.py` (`loads`) and `dags/blueprints.py` (`read_shape`).
-/

namespace SwFactory
namespace Blueprints

open Machine

/-! ## Numbers -/

section Numbers

variable {digit : Char → Option Nat}
variable {C : Coercion}

/-- Where `int` takes what the field takes, it reads the same number. -/
theorem Coercion.Lawful.int_eq (hC : C.Lawful digit) {v : Toml} {n m : Int}
    (hn : C.int v = some n) (hm : Blueprints.int digit v = some m) : n = m := by
  rcases hC.other v n hn with ⟨k, rfl⟩ | ⟨b, rfl⟩ | ⟨q, rfl⟩ | ⟨text, rfl⟩
  · rw [hC.integer] at hn
    exact Option.some.inj (hn.symm.trans hm)
  · rw [hC.boolean b n hn]
    exact Option.some.inj hm
  · have hq := hC.float q n hn
    subst hq
    have hdiv : Int.tdiv (n : Rat).num (n : Rat).den = n := by simp
    exact (Option.some.inj ((congrArg some hdiv).symm.trans hm))
  · exact hC.string text m n hn hm

/-- A number from 1 on is no false value. -/
theorem Coercion.Lawful.truthy (hC : C.Lawful digit) {v : Toml} {n : Int}
    (hn : C.int v = some n) (hpos : 1 ≤ n) : v.truthy = true := by
  rcases hC.other v n hn with ⟨k, rfl⟩ | ⟨b, rfl⟩ | ⟨q, rfl⟩ | ⟨text, rfl⟩
  · rw [hC.integer] at hn
    cases hn
    have hne : n ≠ 0 := by omega
    simpa [Toml.truthy] using hne
  · have hb := hC.boolean b n hn
    cases b with
    | true => rfl
    | false =>
        simp at hb
        omega
  · have hq := hC.float q n hn
    have hne : q ≠ 0 := by
      rintro rfl
      have hzero : n = 0 := by exact_mod_cast hq.symm
      omega
    simpa [Toml.truthy] using hne
  · have hne : text ≠ [] := by
      rintro rfl
      rw [hC.empty] at hn
      cases hn
    simpa [Toml.truthy] using hne

theorem atLeast_eq_some {least n : Int} {v : Toml} :
    atLeast C least v = some n ↔ C.int v = some n ∧ least ≤ n := by
  simp [atLeast, Option.filter_eq_some_iff]

variable {t : Table}
variable {key : String}
variable {d n : Int}

theorem intField_iff (hC : C.Lawful digit) (h : fieldOr t key d (atLeast C 1) = some n) :
    intField digit t key d = some n ↔ Whole digit t key := by
  unfold intField Whole
  cases hv : t.get? key with
  | none =>
      rw [fieldOr_of_none hv] at h ⊢
      simp [h]
  | some v =>
      rw [fieldOr_of_some hv] at h ⊢
      have hn := (atLeast_eq_some.mp h).1
      constructor
      · rintro hint _ ⟨⟩
        rw [hint]
        rfl
      · intro hwhole
        obtain ⟨m, hm⟩ := Option.isSome_iff_exists.mp (hwhole v rfl)
        rw [hm, hC.int_eq hn hm]

theorem defaulted_iff (h : fieldOr t key d (atLeast C 1) = some n) :
    d = n ↔ Defaulted C t key d := by
  unfold Defaulted
  cases hv : t.get? key with
  | none =>
      rw [fieldOr_of_none hv] at h
      cases h
      exact ⟨fun _ _ => by rintro ⟨⟩, fun _ => rfl⟩
  | some v =>
      rw [fieldOr_of_some hv] at h
      have hn := (atLeast_eq_some.mp h).1
      constructor
      · rintro rfl _ ⟨⟩
        exact hn
      · intro hdefault
        exact Option.some.inj ((hdefault v rfl).symm.trans hn)

/-- The section as `read_shape` looks it up. -/
def sectionOf (data : Table) (sec : String) : Table :=
  ((data.get? sec).bind Toml.asTable).getD []

variable {data flat : Table}
variable {sec : String}

/-- **A number of a section is read alike exactly under its condition.** -/
theorem number_iff (hC : C.Lawful digit)
    (hsec : flat.get? sec = (data.get? sec).or ((inlined data).get? sec))
    (hread : (flat.get? sec = none ∧ n = d) ∨ ∃ t : Table, flat.get? sec = some (.table t) ∧
      fieldOr t key d (atLeast C 1) = some n) :
    intField digit (sectionOf data sec) key d = some n ↔ SameNumber digit C data sec key d := by
  cases hdata : data.get? sec with
  | some v =>
      rw [hdata, Option.some_or] at hsec
      rcases hread with ⟨hnone, -⟩ | ⟨t, ht, hfield⟩
      · rw [hsec] at hnone
        cases hnone
      · rw [hsec] at ht
        cases ht
        have hsection : sectionOf data sec = t := by
          rw [sectionOf, hdata]
          rfl
        rw [hsection, intField_iff hC hfield]
        constructor
        · intro hwhole
          refine ⟨fun s hs => ?_, fun hnone => ?_⟩
          · rw [hdata] at hs
            cases hs
            exact hwhole
          · rw [hdata] at hnone
            cases hnone
        · exact fun h => h.whole t hdata
  | none =>
      have hsection : sectionOf data sec = [] := by
        rw [sectionOf, hdata]
        rfl
      have hshape : intField digit (sectionOf data sec) key d = some d := by
        rw [hsection]
        rfl
      rw [hshape, Option.some.injEq]
      rw [hdata, Option.none_or] at hsec
      constructor
      · intro heq
        refine ⟨fun s hs => ?_, fun _ s hs => ?_⟩
        · rw [hdata] at hs
          cases hs
        · rcases hread with ⟨hnone, -⟩ | ⟨t, ht, hfield⟩
          · rw [← hsec, hnone] at hs
            cases hs
          · rw [← hsec, ht] at hs
            cases hs
            exact (defaulted_iff hfield).mp heq
      · intro h
        rcases hread with ⟨-, heq⟩ | ⟨t, ht, hfield⟩
        · exact heq.symm
        · exact (defaulted_iff hfield).mpr (h.defaulted hdata t (hsec.symm.trans ht))

theorem timedelta_eq_some {s r : Int} (h : timedelta s = some r) : r = s := by
  unfold timedelta at h
  split at h
  · exact (Option.some.inj h).symm
  · cases h

/-- An interval of hours, as long as the language has it. -/
theorem hours_isSome_iff {h : Int} (hpos : 1 ≤ h) :
    timedelta (3600 * h) = some (3600 * h) ↔ h < 24000000000 := by
  unfold timedelta
  constructor
  · intro heq
    split at heq
    · omega
    · cases heq
  · intro hlt
    rw [if_pos (by omega)]

end Numbers

/-! ## The trigger -/

section Triggers

variable {A : Alphabet}
variable {C : Coercion}
variable {digit : Char → Option Nat}
variable {data flat t : Table}
variable {tr : Trigger}

theorem TriggerKind.read_eq_cron {v : Toml} :
    TriggerKind.read v = some .cron ↔ v.asString = some "cron".toList := by
  cases v with
  | string text =>
      simp only [TriggerKind.read, Toml.asString, Option.some.injEq]
      split
      · next heq =>
          subst heq
          exact ⟨by rintro ⟨⟩, fun h => absurd h (by decide)⟩
      · split
        · next heq => exact ⟨fun _ => heq, fun _ => rfl⟩
        · next hne => exact ⟨by rintro ⟨⟩, fun h => absurd h hne⟩
  | _ => simp [TriggerKind.read, Toml.asString]

/-- Both readers agree on the kind. -/
theorem LoadedTrigger.kind_iff (h : LoadedTrigger C t tr) :
    equalsText t "kind" "cron" = true ↔ tr.kind = .cron := by
  have hkind := h.kind
  unfold equalsText
  cases hv : t.get? "kind" with
  | none =>
      rw [fieldOr_of_none hv] at hkind
      cases hkind' : tr.kind <;> simp_all
  | some v =>
      rw [fieldOr_of_some hv] at hkind
      rw [beq_iff_eq, Option.bind_some, ← TriggerKind.read_eq_cron, hkind, Option.some.injEq]

theorem LoadedTrigger.cron_eq (h : LoadedTrigger C t tr) :
    t.get? "cron" = tr.cron.map Toml.string := by
  rcases optional_eq_some h.cron with ⟨hnone, hcron⟩ | ⟨v, text, hv, htext, hcron⟩
  · rw [hnone, hcron]
    rfl
  · rw [hv, hcron, asString_eq_some htext]
    rfl

theorem LoadedTrigger.shapeCron_eq (h : LoadedTrigger C t tr) :
    shapeCron t = (if tr.kind = .cron then tr.cron else none).map Toml.string := by
  unfold shapeCron
  by_cases hkind : tr.kind = .cron
  · rw [if_pos (h.kind_iff.mpr hkind), if_pos hkind, h.cron_eq]
  · rw [if_neg (fun heq => hkind (h.kind_iff.mp heq)), if_neg hkind]
    rfl

/-- A trigger of kind `cron` has an expression, and an origin. -/
theorem LoadedTrigger.of_cron (h : LoadedTrigger C t tr) (hkind : tr.kind = .cron) :
    (shapeCron t).any Toml.truthy = true ∧ tr.start ≠ none := by
  have hpresent := h.present
  simp only [Trigger.present, hkind, beq_self_eq_true, Bool.true_and, Bool.and_eq_true,
    Bool.not_eq_true', Option.isNone_eq_false_iff, Option.isSome_iff_ne_none] at hpresent
  refine ⟨?_, hpresent.2⟩
  rw [h.shapeCron_eq, if_pos hkind]
  cases hcron : tr.cron with
  | none =>
      rw [hcron] at hpresent
      exact absurd hpresent.1.1 (by decide)
  | some text =>
      have hne : text ≠ [] := by
        rintro rfl
        rw [hcron] at hpresent
        exact absurd hpresent.1.1 (by decide)
      simpa [Toml.truthy] using hne

/-- **The runs in flight**, of a trigger that `read_shape` finds. -/
theorem LoadedTrigger.runs_iff (h : LoadedTrigger C t tr) (hC : C.Lawful digit) :
    shapeRuns digit (shapeCron t) t = some tr.activeRuns ↔ Whole digit t "max_active_runs" := by
  unfold shapeRuns Whole Trigger.activeRuns
  rcases optional_eq_some h.runs with ⟨hnone, hruns⟩ | ⟨v, n, hv, hn, hruns⟩
  · rw [hnone, hruns]
    refine ⟨fun _ _ => by rintro ⟨⟩, fun _ => ?_⟩
    by_cases hkind : tr.kind = .cron
    · simp [hkind, (h.of_cron hkind).1]
    · simp [hkind, h.shapeCron_eq]
  · obtain ⟨hint, hpos⟩ := atLeast_eq_some.mp hn
    have hne : n ≠ 0 := by omega
    rw [hv, hruns]
    simp only [hC.truthy hint hpos, if_true, Option.getD_some, ne_eq, hne, not_false_eq_true]
    constructor
    · rintro heq _ ⟨⟩
      rw [heq]
      rfl
    · intro hwhole
      obtain ⟨m, hm⟩ := Option.isSome_iff_exists.mp (hwhole v rfl)
      rw [hm, hC.int_eq hint hm]

/-- **The origin**, of a trigger that `read_shape` finds. -/
theorem LoadedTrigger.start_iff (h : LoadedTrigger C t tr) (hC : C.Lawful digit)
    (haware : tr.start.all Moment.aware = true) :
    shapeStart (shapeCron t) t = some (tr.start.map Toml.datetime) ↔
      ∀ v, t.get? "start" = some v → ∃ m, v = .datetime m := by
  unfold shapeStart
  rcases optional_eq_some h.start with ⟨hnone, hstart⟩ | ⟨v, m, hv, hm, hstart⟩
  · rw [hnone, hstart]
    refine ⟨fun _ _ => by rintro ⟨⟩, fun _ => ?_⟩
    have hkind : tr.kind ≠ .cron := fun hkind => (h.of_cron hkind).2 hstart
    simp [h.shapeCron_eq, hkind]
  · rw [hv, hstart]
    constructor
    · rintro heq _ ⟨⟩
      cases v with
      | datetime m => exact ⟨m, rfl⟩
      | _ => cases heq
    · intro hall
      obtain ⟨m', rfl⟩ := hall v rfl
      rw [hC.datetime] at hm
      cases hm
      rw [hstart] at haware
      simp only [Option.all_some] at haware
      simp [haware]

/-- The runs in flight of a trigger that `read_shape` overlooks. -/
theorem LoadedTrigger.default_runs_iff (h : LoadedTrigger C t tr) (hkind : tr.kind ≠ .cron) :
    16 = tr.activeRuns ↔ Defaulted C t "max_active_runs" 16 := by
  unfold Defaulted Trigger.activeRuns
  rcases optional_eq_some h.runs with ⟨hnone, hruns⟩ | ⟨v, n, hv, hn, hruns⟩
  · rw [hnone, hruns]
    exact ⟨fun _ _ => by rintro ⟨⟩, fun _ => by simp [hkind]⟩
  · obtain ⟨hint, hpos⟩ := atLeast_eq_some.mp hn
    have hne : n ≠ 0 := by omega
    rw [hv, hruns]
    simp only [Option.getD_some, ne_eq, hne, not_false_eq_true, if_true]
    constructor
    · rintro rfl _ ⟨⟩
      exact hint
    · intro hdefault
      exact Option.some.inj ((hdefault v rfl).symm.trans hint)

theorem LoadedTrigger.start_none_iff (h : LoadedTrigger C t tr) :
    tr.start = none ↔ t.get? "start" = none := by
  rcases optional_eq_some h.start with ⟨hnone, hstart⟩ | ⟨v, m, hv, -, hstart⟩
  · simp [hnone, hstart]
  · simp [hv, hstart]

/-- The trigger, and where it stands. -/
theorem Loaded.trigger_cases {bp : Blueprint} (hload : Loaded A C flat bp)
    (hflat : Flat data flat) :
    (∃ t : Table, data.get? "trigger" = some (.table t) ∧ LoadedTrigger C t bp.trigger) ∨
      (data.get? "trigger" = none ∧ ∃ t : Table, (inlined data).get? "trigger" = some (.table t) ∧
        LoadedTrigger C t bp.trigger) ∨
      (data.get? "trigger" = none ∧ (inlined data).get? "trigger" = none ∧
        bp.trigger = Trigger.default) := by
  have hsec := hflat.carried "trigger" (by simp)
  have hread := hload.trigger
  cases hv : flat.get? "trigger" with
  | none =>
      rw [hv] at hsec
      rw [fieldOr_of_none hv] at hread
      obtain ⟨hdata, hinlined⟩ := Option.or_eq_none_iff.mp hsec.symm
      exact Or.inr (Or.inr ⟨hdata, hinlined, (Option.some.inj hread).symm⟩)
  | some v =>
      rw [fieldOr_of_some hv] at hread
      obtain ⟨t, rfl, hloaded⟩ := Trigger.read_spec hread
      rw [hv] at hsec
      cases hdata : data.get? "trigger" with
      | some w =>
          rw [hdata] at hsec
          cases hsec
          exact Or.inl ⟨t, rfl, hloaded⟩
      | none =>
          rw [hdata] at hsec
          exact Or.inr (Or.inl ⟨rfl, t, hsec.symm, hloaded⟩)

/-- What `SameLine` says of the trigger. -/
structure SameTrigger (digit : Char → Option Nat) (C : Coercion) (data : Table) : Prop where
  start : ∀ (t : Table) v, data.get? "trigger" = some (.table t) → t.get? "start" = some v →
    ∃ m, v = .datetime m
  runs : ∀ t : Table, data.get? "trigger" = some (.table t) → Whole digit t "max_active_runs"
  trigger : data.get? "trigger" = none → ∀ t : Table,
    (inlined data).get? "trigger" = some (.table t) →
      t.get? "start" = none ∧ Defaulted C t "max_active_runs" 16

theorem trigger_iff {bp : Blueprint} (hload : Loaded A C flat bp) (hflat : Flat data flat)
    (hC : C.Lawful digit) (haware : bp.trigger.start.all Moment.aware = true) :
    (shapeStart (shapeCron (sectionOf data "trigger")) (sectionOf data "trigger") =
        some (bp.trigger.start.map Toml.datetime) ∧
      shapeRuns digit (shapeCron (sectionOf data "trigger")) (sectionOf data "trigger") =
        some bp.trigger.activeRuns) ↔ SameTrigger digit C data := by
  rcases hload.trigger_cases hflat with ⟨t, hdata, h⟩ | ⟨hdata, t, ht, h⟩ | ⟨hdata, hnone, heq⟩
  · have hsection : sectionOf data "trigger" = t := by
      rw [sectionOf, hdata]
      rfl
    rw [hsection, h.start_iff hC haware, h.runs_iff hC]
    constructor
    · rintro ⟨hstart, hruns⟩
      refine ⟨fun s v hs => ?_, fun s hs => ?_, fun hnone => ?_⟩
      · rw [hdata] at hs
        cases hs
        exact hstart v
      · rw [hdata] at hs
        cases hs
        exact hruns
      · rw [hdata] at hnone
        cases hnone
    · exact fun hsame => ⟨fun v => hsame.start t v hdata, hsame.runs t hdata⟩
  · have hsection : sectionOf data "trigger" = [] := by
      rw [sectionOf, hdata]
      rfl
    rw [hsection]
    have hnone : (none = bp.trigger.start.map Toml.datetime) ↔ t.get? "start" = none := by
      rw [← h.start_none_iff]
      cases bp.trigger.start <;> simp
    change some none = some _ ∧ some (16 : Int) = some _ ↔ _
    rw [Option.some.injEq, Option.some.injEq, hnone]
    have hmanual : t.get? "start" = none → bp.trigger.kind ≠ .cron := fun hstart hkind =>
      (h.of_cron hkind).2 (h.start_none_iff.mpr hstart)
    constructor
    · rintro ⟨hstart, hruns⟩
      refine ⟨fun s v hs => ?_, fun s hs => ?_, fun _ s hs => ?_⟩
      · rw [hdata] at hs
        cases hs
      · rw [hdata] at hs
        cases hs
      · rw [ht] at hs
        cases hs
        exact ⟨hstart, (h.default_runs_iff (hmanual hstart)).mp hruns⟩
    · intro hsame
      obtain ⟨hstart, hruns⟩ := hsame.trigger hdata t ht
      exact ⟨hstart, (h.default_runs_iff (hmanual hstart)).mpr hruns⟩
  · have hsection : sectionOf data "trigger" = [] := by
      rw [sectionOf, hdata]
      rfl
    rw [hsection, heq]
    refine ⟨fun _ => ⟨fun s v hs => ?_, fun s hs => ?_, fun _ s hs => ?_⟩, fun _ => ⟨rfl, rfl⟩⟩
    · rw [hdata] at hs
      cases hs
    · rw [hdata] at hs
      cases hs
    · rw [hnone] at hs
      cases hs

/-- The shape has the expression that is in force. -/
theorem cron_eq {bp : Blueprint} (hload : Loaded A C flat bp) (hflat : Flat data flat)
    (hsame : SameTrigger digit C data) :
    shapeCron (sectionOf data "trigger") = bp.cronInForce.map Toml.string := by
  unfold Blueprint.cronInForce
  rcases hload.trigger_cases hflat with ⟨t, hdata, h⟩ | ⟨hdata, t, ht, h⟩ | ⟨hdata, hnone, heq⟩
  · rw [← h.shapeCron_eq, sectionOf, hdata]
    rfl
  · have hkind : bp.trigger.kind ≠ .cron := fun hkind =>
      (h.of_cron hkind).2 (h.start_none_iff.mpr (hsame.trigger hdata t ht).1)
    rw [if_neg hkind, sectionOf, hdata]
    rfl
  · rw [heq, sectionOf, hdata]
    rfl

theorem cronInForce_iff {bp : Blueprint} (hload : Loaded A C flat bp) (hflat : Flat data flat) :
    bp.cronInForce = bp.trigger.cron ↔ CronOfItsKind data := by
  have hloaded : ∀ t : Table, LoadedTrigger C t bp.trigger →
      (bp.cronInForce = bp.trigger.cron ↔
        ((t.get? "cron").isSome = true → equalsText t "kind" "cron" = true)) := by
    intro t h
    rw [h.kind_iff, h.cron_eq, Option.isSome_map]
    unfold Blueprint.cronInForce
    by_cases hkind : bp.trigger.kind = .cron
    · simp [hkind]
    · cases hcron : bp.trigger.cron <;> simp [hkind]
  unfold CronOfItsKind
  rcases hload.trigger_cases hflat with ⟨t, hdata, h⟩ | ⟨hdata, t, ht, h⟩ | ⟨hdata, hnone, heq⟩
  · rw [hloaded t h, hdata, Option.some_or]
    exact ⟨fun hcron s hs => by cases hs; exact hcron, fun hall => hall t rfl⟩
  · rw [hloaded t h, hdata, Option.none_or, ht]
    exact ⟨fun hcron s hs => by cases hs; exact hcron, fun hall => hall t rfl⟩
  · rw [hdata, hnone]
    refine ⟨fun _ _ => by rintro ⟨⟩, fun _ => ?_⟩
    rw [Blueprint.cronInForce, heq]
    rfl

end Triggers

/-! ## Order and gates -/

section Stages

variable {A : Alphabet}
variable {C : Coercion}
variable {data flat : Table}
variable {bp : Blueprint}

theorem order_iff (hload : Loaded A C flat bp) (hflat : Flat data flat) :
    shapeOrder data = some (bp.order.map Toml.string) ↔
      ∃ stages : Table, data.get? "stages" = some (.table stages) ∧
        (stages.get? "order").isSome := by
  have horder := hload.order
  rw [hflat.order] at horder
  rcases hflat.stages with hnone | ⟨stages, hstages⟩
  · have hraises : shapeOrder data = none := by
      unfold shapeOrder required
      rw [hnone]
      rfl
    simp [hraises, hnone]
  · have hof : stagesOf data = stages := by
      rw [stagesOf, hstages]
      rfl
    have hread : shapeOrder data = (stages.get? "order").bind iterate := by
      unfold shapeOrder required
      rw [hstages]
      rfl
    rw [hof] at horder
    rw [hread]
    cases hv : stages.get? "order" with
    | none => simp [hstages, hv]
    | some v =>
        rw [hv] at horder
        cases horder
        exact ⟨fun _ => ⟨stages, hstages, by rw [hv]; rfl⟩, fun _ => rfl⟩

/-- The raw gate declares the mode that is validated. -/
theorem resolveMode_eq {t : Table} {mode : GateMode} (h : GateSpec.modeOf t = some mode) :
    resolveMode t = some mode := by
  unfold GateSpec.modeOf declaredMode at h
  split at h
  · exact h
  · next hauto =>
      rw [Dict.mem_keys_iff, not_not] at hauto
      unfold resolveMode
      cases hv : t.get? "mode" with
      | none =>
          rw [fieldOr_of_none hv] at h
          rw [hauto]
          exact h
      | some v =>
          rw [fieldOr_of_some hv] at h
          rw [hauto]
          exact h

/-- What a gate entry tells of a gate. -/
def toldOf (e : Toml × Toml) : Toml × Option GateMode :=
  (e.1, gateMode e.2)

theorem gateEntries {items : List Toml} {gates : List GateSpec}
    (h : items.mapM (GateSpec.read C) = some gates) :
    ∃ entries, items.mapM gateEntry = some entries ∧
      entries.map toldOf = gates.map (fun g => (.string g.after, some g.mode)) := by
  induction items generalizing gates with
  | nil =>
      cases h
      exact ⟨[], rfl, rfl⟩
  | cons item items ih =>
      rw [List.mapM_cons] at h
      obtain ⟨g, hg, h⟩ := Option.bind_eq_some_iff.mp h
      obtain ⟨rest, hrest, h⟩ := Option.bind_eq_some_iff.mp h
      cases h
      obtain ⟨t, rfl, hafter, hmode⟩ := GateSpec.read_spec hg
      obtain ⟨entries, hentries, htold⟩ := ih hrest
      have hentry : gateEntry (.table t) = some (.string g.after, .table t) := by
        simp only [gateEntry, Toml.asTable, bind, Option.bind_some, hafter]
        rfl
      refine ⟨(.string g.after, .table t) :: entries, ?_, ?_⟩
      · rw [List.mapM_cons, hentry, hentries]
        rfl
      · rw [List.map_cons, List.map_cons, htold]
        simp [toldOf, gateMode, Toml.asTable, resolveMode_eq hmode]

theorem gates_iff (hload : Loaded A C flat bp) (hflat : Flat data flat) :
    (∃ entries, shapeGates data = some entries ∧
      entries.map toldOf = bp.gates.map (fun g => (.string g.after, some g.mode))) ↔
      (data.get? "gates" = none → ∀ v, (inlined data).get? "gates" = some v → v = .array []) := by
  have hread := hload.gates
  have hsec := hflat.carried "gates" (by simp)
  cases hdata : data.get? "gates" with
  | some v =>
      rw [hdata, Option.some_or] at hsec
      rw [fieldOr_of_some hsec] at hread
      obtain ⟨items, hitems, hread⟩ := Option.bind_eq_some_iff.mp hread
      obtain rfl := asArray_eq_some hitems
      obtain ⟨entries, hentries, htold⟩ := gateEntries hread
      refine ⟨fun _ => by rintro ⟨⟩, fun _ => ⟨entries, ?_, htold⟩⟩
      unfold shapeGates
      rw [fieldOr_of_some hdata]
      exact hentries
  | none =>
      have hshape : shapeGates data = some [] := by
        unfold shapeGates
        rw [fieldOr_of_none hdata]
        rfl
      rw [hdata, Option.none_or] at hsec
      constructor
      · rintro ⟨entries, hentries, htold⟩ - v hv
        rw [hshape] at hentries
        cases hentries
        rw [fieldOr_of_some (hsec.trans hv)] at hread
        obtain ⟨items, hitems, hall⟩ := Option.bind_eq_some_iff.mp hread
        obtain rfl := asArray_eq_some hitems
        have hempty : bp.gates = [] := (List.map_eq_nil_iff.mp htold.symm)
        cases items with
        | nil => rfl
        | cons item items =>
            rw [hempty, List.mapM_cons] at hall
            obtain ⟨g, -, hall⟩ := Option.bind_eq_some_iff.mp hall
            obtain ⟨rest, -, hall⟩ := Option.bind_eq_some_iff.mp hall
            cases hall
      · intro hcond
        refine ⟨[], hshape, ?_⟩
        cases hv : (inlined data).get? "gates" with
        | none =>
            rw [fieldOr_of_none (hsec.trans hv)] at hread
            rw [← Option.some.inj hread]
            rfl
        | some v =>
            rw [fieldOr_of_some (hsec.trans hv), hcond rfl v hv] at hread
            have hempty : some [] = some bp.gates := hread
            rw [← Option.some.inj hempty]
            rfl

end Stages

end Blueprints
end SwFactory
