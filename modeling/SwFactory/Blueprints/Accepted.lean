import SwFactory.Blueprints.Loader

/-!
# What `loads` accepts

Where a document is accepted, each field of the blueprint says what the document
holds in its place: `Flat` for the tables, `Loaded` for their fields.

Source: `blueprint.py` (`loads`, `_flatten`).
-/

namespace SwFactory
namespace Blueprints

open Machine

/-! ## Fields -/

section Fields

variable {α : Type}
variable {t : Table}
variable {key : String}
variable {read : Toml → Option α}

theorem fieldOr_of_none {default : α} (h : t.get? key = none) :
    fieldOr t key default read = some default := by
  rw [fieldOr, h]

theorem fieldOr_of_some {default : α} {v : Toml} (h : t.get? key = some v) :
    fieldOr t key default read = read v := by
  rw [fieldOr, h]

theorem fieldOr_table (h : t.get? key = none ∨ ∃ s : Table, t.get? key = some (.table s)) :
    fieldOr t key ([] : Table) Toml.asTable =
      some (((t.get? key).bind Toml.asTable).getD []) := by
  rcases h with h | ⟨s, h⟩
  · rw [fieldOr_of_none h, h]
    rfl
  · rw [fieldOr_of_some h, h]
    rfl

theorem asTable_eq_some {v : Toml} {s : Table} (h : v.asTable = some s) : v = .table s := by
  cases v <;> simp_all [Toml.asTable]

theorem asString_eq_some {v : Toml} {text : Text} (h : v.asString = some text) :
    v = .string text := by
  cases v <;> simp_all [Toml.asString]

theorem asArray_eq_some {v : Toml} {items : List Toml} (h : v.asArray = some items) :
    v = .array items := by
  cases v <;> simp_all [Toml.asArray]

/-- A field that is a table, if it is there. -/
theorem table_of_fieldOr {s : Table} (h : fieldOr t key ([] : Table) Toml.asTable = some s) :
    s = ((t.get? key).bind Toml.asTable).getD [] ∧
      (t.get? key = none ∨ ∃ s : Table, t.get? key = some (.table s)) := by
  cases hv : t.get? key with
  | none =>
      rw [fieldOr_of_none hv] at h
      cases h
      exact ⟨rfl, Or.inl rfl⟩
  | some v =>
      rw [fieldOr_of_some hv] at h
      obtain rfl := asTable_eq_some h
      exact ⟨rfl, Or.inr ⟨s, rfl⟩⟩

theorem optional_eq_some {a : Option α} (h : optional t key read = some a) :
    (t.get? key = none ∧ a = none) ∨ ∃ v b, t.get? key = some v ∧ read v = some b ∧ a = some b := by
  cases hv : t.get? key with
  | none =>
      rw [optional, fieldOr_of_none hv] at h
      cases h
      exact Or.inl ⟨rfl, rfl⟩
  | some v =>
      rw [optional, fieldOr_of_some hv] at h
      obtain ⟨b, hb, rfl⟩ := Option.map_eq_some_iff.mp h
      exact Or.inr ⟨v, b, rfl, hb, rfl⟩

theorem asTexts_eq_some {v : Toml} {texts : List Text} (h : v.asTexts = some texts) :
    v = .array (texts.map Toml.string) := by
  obtain ⟨items, hitems, hall⟩ := Option.bind_eq_some_iff.mp h
  rw [asArray_eq_some hitems]
  congr 1
  clear h hitems
  induction items generalizing texts with
  | nil =>
      cases hall
      rfl
  | cons item items ih =>
      rw [List.mapM_cons] at hall
      obtain ⟨text, htext, hall⟩ := Option.bind_eq_some_iff.mp hall
      obtain ⟨rest, hrest, hall⟩ := Option.bind_eq_some_iff.mp hall
      cases hall
      rw [asString_eq_some htext, ih hrest]
      rfl

end Fields

/-! ## The flat document -/

section Flat

variable {data flat : Table}

theorem get?_carry (data out : Table) (key j : String) :
    (carry data out key).get? j = if j = key then (data.get? key).or (out.get? key) else out.get? j := by
  unfold carry
  cases h : data.get? key with
  | none =>
      dsimp only
      split
      · next heq =>
          subst heq
          rfl
      · rfl
  | some v =>
      dsimp only
      rw [Dict.get?_assign]
      rfl

theorem get?_carried (data : Table) (keys : List String) (out : Table) (j : String) :
    (keys.foldl (carry data) out).get? j =
      if j ∈ keys then (data.get? j).or (out.get? j) else out.get? j := by
  induction keys generalizing out with
  | nil => simp
  | cons key keys ih =>
      rw [List.foldl_cons, ih, get?_carry]
      by_cases heq : j = key
      · subst heq
        cases data.get? j <;> simp
      · simp [heq]

theorem get?_lift {out : Table} {sec key field : String}
    (h : lift data out sec key field = some flat) :
    (data.get? sec = none ∨ ∃ s : Table, data.get? sec = some (.table s)) ∧
      ∀ j, flat.get? j =
        if j = field then
          (Dict.get? (((data.get? sec).bind Toml.asTable).getD []) key).or (out.get? field)
        else out.get? j := by
  obtain ⟨s, hs, h⟩ := Option.bind_eq_some_iff.mp h
  obtain ⟨-, -, h⟩ := Option.bind_eq_some_iff.mp h
  obtain ⟨rfl, htable⟩ := table_of_fieldOr hs
  refine ⟨htable, fun j => ?_⟩
  generalize ((data.get? sec).bind Toml.asTable).getD [] = s at h ⊢
  cases hv : Dict.get? s key with
  | none =>
      rw [hv] at h
      cases h
      split
      · next heq =>
          subst heq
          rfl
      · rfl
  | some v =>
      rw [hv] at h
      cases h
      rw [Dict.get?_assign]
      rfl

/-- The table `[stages]`. -/
def stagesOf (data : Table) : Table :=
  ((data.get? "stages").bind Toml.asTable).getD []

/-- Where the fields of the model come from. -/
structure Flat (data flat : Table) : Prop where
  blueprint : data.get? "blueprint" = none ∨ ∃ s : Table, data.get? "blueprint" = some (.table s)
  stages : data.get? "stages" = none ∨ ∃ s : Table, data.get? "stages" = some (.table s)
  name : flat.get? "name" = (inlined data).get? "name"
  order : flat.get? "order" = ((stagesOf data).get? "order").or ((inlined data).get? "order")
  carried : ∀ key ∈ ["trigger", "gates", "limits", "sandbox"],
    flat.get? key = (data.get? key).or ((inlined data).get? key)

theorem flatten_spec (h : flatten data = some flat) : Flat data flat := by
  obtain ⟨blueprint, hblueprint, h⟩ := Option.bind_eq_some_iff.mp h
  obtain ⟨out, hstages, hdeliver⟩ := Option.bind_eq_some_iff.mp h
  obtain ⟨heq, htable⟩ := table_of_fieldOr hblueprint
  change blueprint = inlined data at heq
  subst heq
  obtain ⟨hs, hstages⟩ := get?_lift hstages
  obtain ⟨-, hdeliver⟩ := get?_lift hdeliver
  refine ⟨htable, hs, ?_, ?_, fun key hkey => ?_⟩
  · rw [hdeliver, if_neg (by decide), hstages, if_neg (by decide), get?_carried,
      if_neg (by decide)]
  · rw [hdeliver, if_neg (by decide), hstages, if_pos rfl, get?_carried, if_neg (by decide)]
    rfl
  · have hfields : key ≠ "labels" ∧ key ≠ "order" ∧ key ∈ Blueprints.carried := by
      simp only [List.mem_cons, List.not_mem_nil, or_false] at hkey
      rcases hkey with rfl | rfl | rfl | rfl <;> decide
    rw [hdeliver, if_neg hfields.1, hstages, if_neg hfields.2.1, get?_carried, if_pos hfields.2.2]

end Flat

/-! ## What `loads` accepts -/

section Accepted

variable {A : Alphabet}
variable {C : Coercion}

structure LoadedTrigger (C : Coercion) (t : Table) (tr : Trigger) : Prop where
  kind : fieldOr t "kind" .manual TriggerKind.read = some tr.kind
  cron : optional t "cron" Toml.asString = some tr.cron
  start : optional t "start" C.datetime = some tr.start
  runs : optional t "max_active_runs" (atLeast C 1) = some tr.maxActiveRuns
  present : tr.present = true

theorem Trigger.read_spec {v : Toml} {tr : Trigger} (h : Trigger.read A C v = some tr) :
    ∃ t : Table, v = .table t ∧ LoadedTrigger C t tr := by
  simp only [Trigger.read, bind, Option.bind_eq_some_iff] at h
  obtain ⟨t, ht, -, -, kind, hkind, cron, hcron, start, hstart, runs, hruns, issues, -, backlog, -,
    h⟩ := h
  split at h
  · next hpresent =>
      cases h
      exact ⟨t, asTable_eq_some ht, hkind, hcron, hstart, hruns, hpresent⟩
  · cases h

theorem LoadedTrigger.default : LoadedTrigger C [] Trigger.default :=
  ⟨rfl, rfl, rfl, rfl, by decide⟩

structure LoadedLimits (C : Coercion) (t : Table) (l : Limits) : Prop where
  timeout : fieldOr t "stage_timeout_h" 3 (atLeast C 1) = some l.stageTimeoutH
  jobs : fieldOr t "max_parallel_jobs" 4 (atLeast C 1) = some l.maxParallelJobs

theorem Limits.read_spec {v : Toml} {l : Limits} (h : Limits.read C v = some l) :
    ∃ t : Table, v = .table t ∧ LoadedLimits C t l := by
  simp only [Limits.read, bind, Option.bind_eq_some_iff] at h
  obtain ⟨t, ht, -, -, _, -, _, -, _, -, _, -, _, -, timeout, htimeout, jobs, hjobs, _, -, h⟩ := h
  cases h
  exact ⟨t, asTable_eq_some ht, htimeout, hjobs⟩

theorem SandboxSpec.read_spec {v : Toml} {s : SandboxSpec} (h : SandboxSpec.read C v = some s) :
    ∃ t : Table, v = .table t ∧ fieldOr t "ttl_s" 172800 (atLeast C 1) = some s.ttlS := by
  simp only [SandboxSpec.read, bind, Option.bind_eq_some_iff] at h
  obtain ⟨t, ht, -, -, _, -, _, -, _, -, ttl, httl, _, -, _, -, _, -, _, -, h⟩ := h
  cases h
  exact ⟨t, asTable_eq_some ht, httl⟩

theorem GateSpec.read_spec {v : Toml} {g : GateSpec} (h : GateSpec.read C v = some g) :
    ∃ t : Table, v = .table t ∧ t.get? "after" = some (.string g.after) ∧
      GateSpec.modeOf t = some g.mode := by
  simp only [GateSpec.read, bind, Option.bind_eq_some_iff] at h
  obtain ⟨t, ht, -, -, mode, hmode, after, hafter, _, -, _, -, _, -, h⟩ := h
  cases h
  obtain ⟨v, hv, htext⟩ := Option.bind_eq_some_iff.mp hafter
  rw [asString_eq_some htext] at hv
  exact ⟨t, asTable_eq_some ht, hv, hmode⟩

/-- What the shape of a line depends on. -/
structure Loaded (A : Alphabet) (C : Coercion) (flat : Table) (bp : Blueprint) : Prop where
  name : flat.get? "name" = some (.string bp.name)
  named : bp.name ≠ []
  trigger : fieldOr flat "trigger" Trigger.default (Trigger.read A C) = some bp.trigger
  order : flat.get? "order" = some (.array (bp.order.map Toml.string))
  gates : fieldOr flat "gates" [] (listOf (GateSpec.read C)) = some bp.gates
  limits : fieldOr flat "limits" Limits.default (Limits.read C) = some bp.limits
  sandbox : fieldOr flat "sandbox" SandboxSpec.default (SandboxSpec.read C) = some bp.sandbox

theorem Blueprint.fields_spec {flat : Table} {bp : Blueprint}
    (h : Blueprint.fields A C flat = some bp) : Loaded A C flat bp := by
  unfold Blueprint.fields at h
  obtain ⟨-, -, h⟩ := Option.bind_eq_some_iff.mp h
  obtain ⟨name, hname, h⟩ := Option.bind_eq_some_iff.mp h
  obtain ⟨-, -, h⟩ := Option.bind_eq_some_iff.mp h
  obtain ⟨_, -, h⟩ := Option.bind_eq_some_iff.mp h
  obtain ⟨trigger, htrigger, h⟩ := Option.bind_eq_some_iff.mp h
  obtain ⟨_, -, h⟩ := Option.bind_eq_some_iff.mp h
  obtain ⟨order, horder, h⟩ := Option.bind_eq_some_iff.mp h
  obtain ⟨gates, hgates, h⟩ := Option.bind_eq_some_iff.mp h
  obtain ⟨limits, hlimits, h⟩ := Option.bind_eq_some_iff.mp h
  obtain ⟨_, -, h⟩ := Option.bind_eq_some_iff.mp h
  obtain ⟨_, -, h⟩ := Option.bind_eq_some_iff.mp h
  obtain ⟨sandbox, hsandbox, h⟩ := Option.bind_eq_some_iff.mp h
  obtain ⟨_, -, h⟩ := Option.bind_eq_some_iff.mp h
  obtain ⟨_, -, h⟩ := Option.bind_eq_some_iff.mp h
  obtain ⟨_, -, h⟩ := Option.bind_eq_some_iff.mp h
  cases h
  obtain ⟨v, hv, hpattern⟩ := Option.bind_eq_some_iff.mp hname
  obtain ⟨text, htext, hpattern⟩ := Option.bind_eq_some_iff.mp hpattern
  obtain ⟨w, hw, htexts⟩ := Option.bind_eq_some_iff.mp horder
  split at hpattern
  · next hnamed =>
      cases hpattern
      refine ⟨by rw [hv, asString_eq_some htext], ?_, htrigger, ?_, hgates, hlimits, hsandbox⟩
      · rintro heq
        change name = [] at heq
        subst heq
        cases hnamed
      · rw [hw, asTexts_eq_some htexts]
  · cases hpattern

theorem loads_spec {data : Table} {bp : Blueprint} (h : loads A C data = some bp) :
    ∃ flat, Flat data flat ∧ Loaded A C flat bp ∧ bp.checkShape = true := by
  simp only [loads, bind, Option.bind_eq_some_iff] at h
  obtain ⟨-, -, flat, hflat, h⟩ := h
  obtain ⟨hfields, hshape⟩ := Option.filter_eq_some_iff.mp h
  exact ⟨flat, flatten_spec hflat, Blueprint.fields_spec hfields, hshape⟩

/-- The limits of an accepted line are those of its fields. -/
theorem scheduleLimits_spec {bp : Blueprint} (h : bp.checkShape = true) :
    ∃ limits, bp.scheduleLimits = some limits ∧ limits.origin = bp.trigger.start ∧
      limits.maxActiveRuns = bp.trigger.activeRuns ∧ limits.maxCells = bp.limits.maxParallelJobs ∧
      timedelta bp.sandbox.ttlS = some limits.runTimeout ∧ limits.origin.all Moment.aware = true := by
  have hsome : bp.scheduleLimits.isSome = true := by
    simp only [Blueprint.checkShape, Bool.and_eq_true] at h
    exact h.1.1.1.1.1.2
  obtain ⟨limits, hlimits⟩ := Option.isSome_iff_exists.mp hsome
  have hspec := hlimits
  unfold Blueprint.scheduleLimits at hspec
  obtain ⟨runTimeout, htime, hspec⟩ := Option.bind_eq_some_iff.mp hspec
  dsimp only at hspec
  split at hspec
  · next hvalid =>
      cases hspec
      simp only [ScheduleLimits.valid, Bool.and_eq_true] at hvalid
      exact ⟨_, hlimits, rfl, rfl, rfl, htime, hvalid.1.1.1⟩
  · cases hspec

end Accepted

end Blueprints
end SwFactory
