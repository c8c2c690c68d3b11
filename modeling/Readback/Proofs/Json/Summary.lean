import Readback.Proofs.Json.Config

namespace Readback

open Json

namespace Stop.Reason

theorem ofJson?_json (r : Reason) : ofJson? r.json = some r := by
  cases r <;> rfl

end Stop.Reason

namespace Geometry

structure Fits (g : Geometry) : Prop where
  devSize : g.devSize < Word.limit
  blockSize : g.blockSize < Word.limit
  nBlocks : g.nBlocks < Word.limit

theorem ofJson?_json {g : Geometry} (h : g.Fits) : ofJson? g.json = some g := by
  have hmembers : g.json.members? ["dev_size", "block_size", "n_blocks"] =
      some [some (.nat g.devSize), some (.nat g.blockSize), some (.nat g.nBlocks)] :=
    members?_record rfl (by decide)
  simp only [ofJson?, hmembers, bind, Option.bind, nat?_nat h.devSize, nat?_nat h.blockSize,
    nat?_nat h.nBlocks]
  rfl

theorem sound_json (g : Geometry) : g.json.Sound := by
  simp only [json]
  refine sound_record ?_
  simp only [List.forall_mem_cons]
  exact ⟨sound_nat _, sound_nat _, sound_nat _, nofun⟩

end Geometry

namespace Stats

theorem ofValues_get (s : Stats) : ofValues (Counter.all.map s.get) = s := by
  cases s
  simp only [ofValues, Counter.all, List.map_cons, List.map_nil, List.zip_cons_cons,
    List.zip_nil_right, List.foldl_cons, List.foldl_nil, set, get]

theorem ofJson?_json (s : Stats) : ofJson? s.json = some s := by
  have hmembers : s.json.members? (Counter.all.map Counter.name) =
      some (Counter.all.map fun c => some (.uint64 (s.get c))) := by
    rw [json, members?_record (by rw [List.map_map]; rfl) (by decide), List.map_map]
    rfl
  have hvalues : ∀ cs : List Counter, (cs.map fun c => some (Json.uint64 (s.get c))).mapM
      (fun v => v >>= Json.uint64?) = some (cs.map s.get) := by
    intro cs
    induction cs with
    | nil => rfl
    | cons c cs ih =>
      rw [List.map_cons, List.mapM_cons, ih]
      simp only [bind, Option.bind, uint64?_uint64]
      rfl
  have hall := hvalues Counter.all
  rw [ofJson?, hmembers]
  simp only [bind, Option.bind] at hall ⊢
  rw [hall]
  exact congrArg some (ofValues_get s)

theorem sound_json (s : Stats) : s.json.Sound := by
  refine sound_record fun p hp => ?_
  obtain ⟨c, -, rfl⟩ := List.mem_map.mp hp
  exact sound_uint64 _

end Stats

namespace RateSamples

/-- Each sample is written as a number that can be read. -/
structure Readable (r : RateSamples) : Prop where
  iops : ∀ x ∈ r.iops, (Json.ofFloat32 x).float32?.isSome = true
  bandwidth : ∀ x ∈ r.bandwidth, (Json.ofFloat32 x).float32?.isSome = true

theorem exists_mapM_float32? {xs : List Float32}
    (h : ∀ x ∈ xs, (Json.ofFloat32 x).float32?.isSome = true) :
    ∃ ys, (Json.array (xs.map .ofFloat32)).list? Json.float32? = some ys := by
  show ∃ ys, (xs.map Json.ofFloat32).mapM Json.float32? = some ys
  induction xs with
  | nil => exact ⟨[], rfl⟩
  | cons x xs ih =>
    obtain ⟨y, hy⟩ := Option.isSome_iff_exists.mp (h x List.mem_cons_self)
    obtain ⟨ys, hys⟩ := ih fun z hz => h z (List.mem_cons_of_mem _ hz)
    rw [List.map_cons, List.mapM_cons, hy, hys]
    exact ⟨y :: ys, rfl⟩

theorem exists_ofJson? {r : RateSamples} (h : r.Readable) :
    ∃ r', ofJson? (r.jsonWith .ofFloat32) = some r' := by
  obtain ⟨iops, hiops⟩ := exists_mapM_float32? h.iops
  obtain ⟨bandwidth, hbandwidth⟩ := exists_mapM_float32? h.bandwidth
  have hmembers : (r.jsonWith .ofFloat32).members? ["iops", "bw"] =
      some [some (.array (r.iops.map .ofFloat32)), some (.array (r.bandwidth.map .ofFloat32))] :=
    members?_record rfl (by decide)
  simp only [ofJson?, hmembers, bind, Option.bind, hiops, hbandwidth]
  exact ⟨_, rfl⟩

theorem sound_jsonWith (r : RateSamples) : (r.jsonWith .ofFloat32).Sound := by
  have hsamples : ∀ xs : List Float32, (Json.array (xs.map .ofFloat32)).Sound := by
    intro xs
    refine soundItems_iff.mpr fun v hv => ?_
    obtain ⟨x, -, rfl⟩ := List.mem_map.mp hv
    exact sound_ofFloat32 x
  simp only [jsonWith]
  refine sound_record ?_
  simp only [List.forall_mem_cons]
  exact ⟨hsamples _, hsamples _, nofun⟩

end RateSamples

namespace Summary

/-- The time and the rates are written as numbers that can be read. -/
structure Measured (s : Summary) : Prop where
  elapsed : (Json.ofFloat s.elapsedSeconds).float?.isSome = true
  rates : s.rates.Readable

/-- Every part of the summary is written as what can be read. -/
structure Readable (s : Summary) : Prop where
  config : s.config.Fits
  geometry : s.geometry.Fits
  measured : s.Measured

/-- Two summaries tell the same of a run, but for its times and rates. -/
structure Agrees (s s' : Summary) : Prop where
  config : s'.config = s.config
  seed : s'.seed = s.seed
  geometry : s'.geometry = s.geometry
  stats : s'.stats = s.stats
  stopReason : s'.stopReason = s.stopReason

/-- What a summary tells of a run, but for its times and rates, is found in the fields of a
document. -/
structure ToldBy (s : Summary) (fields : List (Option String × Json)) : Prop where
  config : (fields.lookup (some "config")).map Config.ofJson = some (.ok s.config)
  seed : fields.lookup (some "seed") >>= Json.uint64? = some s.seed
  geometry : fields.lookup (some "geometry") >>= Geometry.ofJson? = some s.geometry
  stats : fields.lookup (some "stats") >>= Stats.ofJson? = some s.stats
  stopReason : fields.lookup (some "stop_reason") >>= optional? Stop.Reason.ofJson? =
    some s.stopReason

variable {s : Summary}

theorem optional?_stopReason (s : Summary) :
    optional? Stop.Reason.ofJson? (optional Stop.Reason.json s.stopReason) = some s.stopReason :=
  optional?_optional s.stopReason Stop.Reason.ofJson?_json (by intro r; cases r <;> nofun)

/-- No matter what is measured, the rest of a summary can be read from its document. -/
theorem exists_toldBy (hconfig : s.config.Fits) (hgeometry : s.geometry.Fits) :
    ∃ fields, s.json = .object fields ∧ s.ToldBy fields :=
  ⟨_, rfl, congrArg some (Config.ofJson_json hconfig), uint64?_uint64 s.seed,
    Geometry.ofJson?_json hgeometry, s.stats.ofJson?_json, s.optional?_stopReason⟩

theorem sound_json (s : Summary) : s.json.Sound := by
  simp only [json, jsonWith]
  refine sound_record ?_
  simp only [List.forall_mem_cons]
  exact ⟨s.config.sound_json, sound_uint64 _, s.geometry.sound_json, sound_ofFloat _,
    s.stats.sound_json, sound_optional (fun (r : Stop.Reason) => sound_text r.name) _,
    s.rates.sound_jsonWith, nofun⟩

theorem exists_ofJson (h : s.Readable) : ∃ s', ofJson s.json = .ok s' ∧ s.Agrees s' := by
  obtain ⟨elapsed, helapsed⟩ := Option.isSome_iff_exists.mp h.measured.elapsed
  obtain ⟨rates, hrates⟩ := RateSamples.exists_ofJson? h.measured.rates
  let s' : Summary := ⟨s.config, s.seed, s.geometry, elapsed, s.stats, s.stopReason, rates⟩
  refine ⟨s', ?_, rfl, rfl, rfl, rfl, rfl⟩
  simp only [ofJson, json, jsonWith, record, entries?, orMalformed, bind, Except.bind,
    List.map_cons, List.map_nil, List.foldlM_cons, List.foldlM_nil, Draft.add, Draft.fill,
    Draft.empty, Config.ofJson_json h.config, uint64?_uint64, Geometry.ofJson?_json h.geometry,
    helapsed, Stats.ofJson?_json, optional?_stopReason, hrates]
  rfl

end Summary

namespace Json

/-- A configuration is read as it was written, and so is what a summary tells of a run, on one line
and over several. -/
theorem survives_text :
    (∀ c : Config, c.Fits → ∀ text ∈ [c.json.compact, c.json.pretty 0],
      decode (Text.glyphs (String.ofList text).toUTF8) Config.ofJson = .ok c) ∧
    ∀ s : Summary, s.Readable → ∀ text ∈ [s.json.compact, s.json.pretty 0], ∃ s',
      decode (Text.glyphs (String.ofList text).toUTF8) Summary.ofJson = .ok s' ∧ s.Agrees s' := by
  have hreads : ∀ v : Json, v.Sound → ∀ text ∈ [v.compact, v.pretty 0], Reads v text := by
    intro v hv
    simp only [List.forall_mem_cons]
    exact ⟨reads_compact v hv, reads_pretty 0 v hv, List.forall_mem_nil _⟩
  constructor
  · intro c hc text htext
    have hread := (hreads _ c.sound_json text htext).decode_bytes isBlank_of_mem_nil
      Config.ofJson
    rwa [List.append_nil, Config.ofJson_json hc] at hread
  · intro s hs text htext
    obtain ⟨s', hs', hagrees⟩ := Summary.exists_ofJson hs
    have hread := (hreads _ s.sound_json text htext).decode_bytes isBlank_of_mem_nil
      Summary.ofJson
    rw [List.append_nil, hs'] at hread
    exact ⟨s', hread, hagrees⟩

theorem survives_text_of_longest :
    let c := { Config.standard with
      device := some "/dev/größe", duration := some ⟨Word.limit * Duration.second - 1⟩ }
    let s : Summary := ⟨c, 7, ⟨2048, 512, 4⟩, 1.5, .zero, some .deadline, ⟨[2.5], [0.125]⟩⟩
    decode (Text.glyphs (String.ofList c.json.compact).toUTF8) Config.ofJson = .ok c ∧
    ∃ s', decode (Text.glyphs (String.ofList (s.json.pretty 0)).toUTF8) Summary.ofJson = .ok s' ∧
      s.Agrees s' := by
  intro c s
  have hc : c.Fits := ⟨by decide, fun d hd => by cases hd; decide⟩
  have hs : s.Readable := {
    config := hc
    geometry := ⟨by decide, by decide, by decide⟩
    measured := ⟨by decide +kernel, by decide +kernel, by decide +kernel⟩ }
  exact ⟨survives_text.1 c hc _ List.mem_cons_self,
    survives_text.2 s hs _ (List.mem_cons_of_mem _ List.mem_cons_self)⟩

end Json

end Readback
