import Mathlib.Tactic.TFAE
import Estate.Proofs.Command.Session
import Estate.Proofs.Deployment.Completeness

/-! The preview as a gate for deployments. The program ends well exactly when the stacks can be
ordered and everything required is supplied, whatever the format in which it shows the preview. -/
namespace Estate.Command
open Storage Project Deployment

variable {v : Volume} {arguments : List String} {invocation : Invocation} {id : String}
  {config : Config} {t : Topology} {p : Preview} {fault : OrderError}

theorem Asks.answer_preview (asks : Asks v arguments invocation .preview id config t) :
    v.answer (run arguments) = match t.preview with
      | .ok p => previewOutput (formatted invocation config) p
      | .error fault => failure ("deployment error: " ++ fault.message) (some fault.message) := by
  have read : v.answer ((formatted invocation config).preview id : OnVolume Preview).run =
      t.preview.mapError .deployment := asks.answer_readTopology _
  have inert : Inert ((formatted invocation config).preview id : OnVolume Preview).run :=
    (inert_readTopology _ id).run_bind_except fun _ => inert_pure _
  rw [asks.answer_run, perform, inert.answer_bind_except, read]
  cases t.preview <;> rfl

theorem code_previewOutput_iff : (previewOutput config p).code = 0 ↔ p.allComplete = true := by
  unfold previewOutput
  cases p.allComplete <;> simp [success]

/-- A preview says in all its summaries alike whether everything required is supplied. -/
theorem summaries_tfae (previewed : t.preview = .ok p) :
    [p.allComplete = true, p.totalUnresolved = 0, p.blockingReasons = [], t.Fulfilled].TFAE := by
  have summary := Topology.summarizes_preview previewed
  tfae_have 1 ↔ 4 := summary.complete
  tfae_have 2 ↔ 4 := by rw [summary.total, List.length_eq_zero_iff, Topology.gaps_eq_nil_iff]
  tfae_have 3 ↔ 4 := by
    simp [summary.reasons, Topology.fulfilled_iff, List.filter_eq_nil_iff]
  tfae_finish

/-- There is no preview exactly when the stacks cannot be ordered; the program then shows the fault
and nothing else. Otherwise it ends well exactly when everything required is supplied, as all
summaries say, and it counts and names what is not. -/
theorem preview_gate (t : Topology) :
    (∀ fault, t.preview = .error fault ↔ order t.allStacks = .error fault) ∧
    (∀ fault, t.preview = .error fault →
      ∀ {v arguments invocation id config}, Asks v arguments invocation .preview id config t →
        v.answer (run arguments) =
          failure ("deployment error: " ++ fault.message) (some fault.message) ∧
        (v.answer (run arguments)).code = 1 ∧ (v.answer (run arguments)).stdout = "") ∧
    ∀ p, t.preview = .ok p →
      [p.allComplete = true, p.totalUnresolved = 0, p.blockingReasons = [], t.Fulfilled].TFAE ∧
      (∀ {v arguments invocation id config}, Asks v arguments invocation .preview id config t →
        ((v.answer (run arguments)).code = 0 ↔ p.allComplete = true)) ∧
      p.totalUnresolved = t.gaps.length ∧
      p.blockingReasons = (t.allStacks.filter fun s => t.lacking s ≠ []).map t.reason := by
  refine ⟨fun _ => Topology.preview_eq_error_iff, ?refused, ?previewed⟩
  case refused =>
    intro fault refused v arguments invocation id config asks
    rw [asks.answer_preview, refused]
    exact ⟨rfl, rfl, rfl⟩
  case previewed =>
    intro p previewed
    have summary := Topology.summarizes_preview previewed
    refine ⟨summaries_tfae previewed, ?exits, summary.total, summary.reasons⟩
    intro v arguments invocation id config asks
    rw [asks.answer_preview, previewed]
    exact code_previewOutput_iff

/-- The only parameter of the only stack is required, and nothing supplies it: the program ends
badly and names it. -/
theorem preview_gate_shop :
    let text := "blueprints:\n- id: site\n  parameters:\n" ++
      "  - name: region\n    is_required: true\nstacks:\n- id: web\n  blueprint_id: site\n"
    let volume : Volume :=
      ⟨[(["p"], .directory), (["p", ".tp"], .directory), (["p", ".tp", "topologies"], .directory),
        (["p", ".tp", "topologies", "shop.yaml"], .file text.toUTF8)], []⟩
    let arguments := ["--project-root", "/p", "preview", "shop"]
    ∃ t p, Asks volume arguments ⟨"/p", false, .preview "shop"⟩ .preview "shop" (.standard "/p") t ∧
      t.preview = .ok p ∧
      p.blockingReasons = ["stack 'web' is missing required parameter(s): region"] ∧
      (volume.answer (run arguments)).code ≠ 0 := by
  intro text volume arguments
  let web : Stack := ⟨"web", "site", "", none, .empty, [], .empty⟩
  let site : Blueprint := ⟨"site", "", [⟨"region", "", none, true, none⟩]⟩
  have read : (Yaml.read? text).bind (Snapshot.schema.read .yaml) =
      some ⟨"", "", [], [site], [web]⟩ := by decide +kernel
  have content : volume.answer (Files.readText? "/p/.tp/topologies/shop.yaml") = some text := by
    decide +kernel
  have file : volume.answer ((Config.standard "/p").store.findFile? "shop" Store.extensions) =
      some "/p/.tp/topologies/shop.yaml" := by decide +kernel
  have good : WellFormed ⟨"shop", "", [], [site], [web]⟩ :=
    ⟨by decide, by decide, ⟨by decide, nofun, nofun⟩⟩
  obtain ⟨t, valid⟩ := Snapshot.validate_isOk_iff.mpr good
  obtain ⟨_, holds⟩ := Snapshot.validate_eq_ok valid
  have asks : Asks volume arguments ⟨"/p", false, .preview "shop"⟩ .preview "shop"
      (.standard "/p") t :=
    ⟨by decide +kernel, rfl, by decide +kernel,
      answer_readTopology_of_yaml (by decide +kernel) file content (by decide +kernel) read rfl
        valid⟩
  have declared : t.declared web = site.parameters := by
    have found : t.blueprint? web.blueprintId = some site :=
      (holds.blueprint? _ _).mpr ⟨List.mem_cons_self, rfl⟩
    rw [Topology.declared, found]
    rfl
  have lacking : t.lacking web = site.parameters := by
    have outside : t.containing web = none := rfl
    rw [Topology.lacking, declared, outside]
    decide +kernel
  have whole : t.allStacks = [web] := holds.allStacks
  cases previewed : t.preview with
  | error fault =>
    have refused := ((preview_gate t).1 fault).mp previewed
    have ordered : (order [web]).isOk = true := by decide +kernel
    rw [← whole, refused] at ordered
    exact absurd ordered Bool.false_ne_true
  | ok p =>
    obtain ⟨same, exits, _, reasons⟩ := (preview_gate t).2.2 p previewed
    have blocked : p.blockingReasons =
        ["stack 'web' is missing required parameter(s): region"] := by
      have waits : t.allStacks.filter (fun s => t.lacking s ≠ []) = [web] := by
        simp [whole, lacking, site]
      rw [reasons, waits, List.map_singleton, Topology.reason, lacking]
      decide +kernel
    refine ⟨t, p, asks, previewed, blocked, fun passes => ?_⟩
    have none := (same.out 0 2).mp ((exits asks).mp passes)
    exact List.cons_ne_nil _ _ (blocked.symm.trans none)

end Estate.Command
