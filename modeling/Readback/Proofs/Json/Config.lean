import Readback.Proofs.Json.Record
import Readback.Proofs.Time.Text

namespace Readback.Config

open Json

structure Fits (c : Config) : Prop where
  reportInterval : c.reportInterval.fits = true
  duration : ∀ d, c.duration = some d → d.fits = true

/-- Takes over one field of another configuration. -/
def take (source c : Config) : Field → Config
  | .device => { c with device := source.device }
  | .blockSize => { c with blockSize := source.blockSize }
  | .maxBlocksPerOp => { c with maxBlocksPerOp := source.maxBlocksPerOp }
  | .uniquePct => { c with uniquePct := source.uniquePct }
  | .trimPct => { c with trimPct := source.trimPct }
  | .workers => { c with workers := source.workers }
  | .mode => { c with mode := source.mode }
  | .seed => { c with seed := source.seed }
  | .count => { c with count := source.count }
  | .duration => { c with duration := source.duration }
  | .reportInterval => { c with reportInterval := source.reportInterval }
  | .stopAtFull => { c with stopAtFull := source.stopAtFull }
  | .stopOnFailure => { c with stopOnFailure := source.stopOnFailure }
  | .maxDiagnostics => { c with maxDiagnostics := source.maxDiagnostics }

theorem foldl_take (source c : Config) : Field.all.foldl source.take c = source := by
  cases source
  cases c
  simp only [Field.all, List.foldl_cons, List.foldl_nil, take]

theorem Field.ofName?_name (f : Field) : ofName? f.name = some f := by
  cases f <;> rfl

theorem uint64_uint64 (n : UInt64) : jsonFormat.uint64 (.uint64 n) = .ok n := by
  rw [Format.uint64, show jsonFormat.uint64? = Json.uint64? from rfl, uint64?_uint64]
  rfl

theorem uint8_nat (n : UInt8) : jsonFormat.uint8 (.nat n.toNat) = .ok n := by
  rw [Format.uint8, show jsonFormat.uint8? = Json.uint8? from rfl, uint8?_nat]
  rfl

theorem duration_text {d : Duration} (h : d.fits = true) :
    jsonFormat.duration (.text d.text) = .ok d :=
  Duration.parse_text h

theorem mode_json (m : Mode) : jsonFormat.mode m.json = .ok m := by
  cases m <;> rfl

theorem orNull_optional {β : Type} {item : β → Json} {read : Json → Except Unreadable β}
    (x : Option β) (h : ∀ y, x = some y → read (item y) = .ok y)
    (hnull : ∀ y, jsonFormat.isNull (item y) = false) :
    jsonFormat.orNull read (Json.optional item x) = .ok x := by
  cases x with
  | none => rfl
  | some y =>
    show jsonFormat.orNull read (item y) = .ok (some y)
    rw [Format.orNull, hnull, h y rfl]
    rfl

theorem assign_fieldJson {source : Config} (h : source.Fits) (c : Config) (f : Field) :
    jsonFormat.assign c (source.fieldJson f) f = .ok (source.take c f) := by
  cases f with
  | device =>
    have hread : jsonFormat.orNull jsonFormat.text (optional .text source.device) =
        .ok source.device := orNull_optional source.device (fun _ _ => rfl) fun _ => rfl
    rw [Format.assign, fieldJson, hread]
    rfl
  | uniquePct => rw [Format.assign, fieldJson, uint8_nat]; rfl
  | trimPct => rw [Format.assign, fieldJson, uint8_nat]; rfl
  | mode => rw [Format.assign, fieldJson, mode_json]; rfl
  | seed =>
    have hread : jsonFormat.orNull jsonFormat.uint64 (optional .uint64 source.seed) =
        .ok source.seed := orNull_optional source.seed (fun n _ => uint64_uint64 n) fun _ => rfl
    rw [Format.assign, fieldJson, hread]
    rfl
  | count =>
    have hread : jsonFormat.orNull jsonFormat.uint64 (optional .uint64 source.count) =
        .ok source.count := orNull_optional source.count (fun n _ => uint64_uint64 n) fun _ => rfl
    rw [Format.assign, fieldJson, hread]
    rfl
  | duration =>
    have hread := orNull_optional source.duration (fun d hd => duration_text (h.duration d hd))
      fun _ => rfl
    rw [Format.assign, fieldJson, hread]
    rfl
  | reportInterval => rw [Format.assign, fieldJson, duration_text h.reportInterval]; rfl
  | stopAtFull => rfl
  | stopOnFailure => rfl
  | _ => rw [Format.assign, fieldJson, uint64_uint64]; rfl

theorem assignAll_map {source : Config} (h : source.Fits) {fields given : List Field}
    (hnodup : fields.Nodup) (hnew : ∀ f ∈ fields, f ∉ given) (c : Config) :
    jsonFormat.assignAll c given (fields.map fun f => (some f.name, source.fieldJson f)) =
      .ok (fields.foldl source.take c) := by
  -- On the fields; those read before are in `given`, and none of them comes again.
  induction fields generalizing given c with
  | nil => rfl
  | cons f fields ih =>
    obtain ⟨hf, hnodup⟩ := List.nodup_cons.mp hnodup
    have hlater : ∀ f' ∈ fields, f' ∉ f :: given := by
      intro f' hf'
      rw [List.mem_cons, not_or]
      exact ⟨fun he => hf (he ▸ hf'), hnew f' (List.mem_cons_of_mem _ hf')⟩
    have hrest := ih hnodup hlater (source.take c f)
    rw [List.map_cons, Format.assignAll]
    simp only [bind, Option.bind, Field.ofName?_name, orMalformed, Except.bind,
      if_neg (hnew f List.mem_cons_self), assign_fieldJson h, hrest, List.foldl_cons]

/-- What is written for a configuration is read as the configuration. -/
theorem ofJson_json {c : Config} (h : c.Fits) : ofJson c.json = .ok c := by
  have hentries : c.json.entries? (Field.all.map Field.name) =
      some (Field.all.map fun f => (some f.name, c.fieldJson f)) := by
    rw [json, record, List.map_map]
    rfl
  have hall : jsonFormat.config (Field.all.map fun f => (some f.name, c.fieldJson f)) = .ok c := by
    rw [Format.config, assignAll_map h (by decide) (fun _ _ => List.not_mem_nil), foldl_take]
  simp only [ofJson, hentries, orMalformed, bind, Except.bind, hall]
  rfl

theorem sound_fieldJson (c : Config) (f : Field) : (c.fieldJson f).Sound := by
  cases f with
  | device => exact sound_optional sound_text c.device
  | mode => exact sound_text _
  | seed => exact sound_optional sound_uint64 c.seed
  | count => exact sound_optional sound_uint64 c.count
  | duration => exact sound_optional (fun d => sound_text d.text) c.duration
  | reportInterval => exact sound_text _
  | stopAtFull => trivial
  | stopOnFailure => trivial
  | _ => exact sound_nat _

theorem sound_json (c : Config) : c.json.Sound := by
  refine sound_record fun p hp => ?_
  obtain ⟨f, -, rfl⟩ := List.mem_map.mp hp
  exact sound_fieldJson c f

end Readback.Config
