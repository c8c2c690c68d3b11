import Mathlib.Data.String.Basic
import Readback.Program
import Readback.Proofs.Files.Document
import Readback.Proofs.Options.Reader

namespace Readback

namespace Config

def Field.Value : Field → Type
  | device => Option String
  | blockSize | maxBlocksPerOp | workers | maxDiagnostics => UInt64
  | uniquePct | trimPct => UInt8
  | mode => Mode
  | seed | count => Option UInt64
  | duration => Option Duration
  | reportInterval => Duration
  | stopAtFull | stopOnFailure => Bool

def Field.flag : Field → Flag
  | device => .device
  | blockSize => .blockSize
  | maxBlocksPerOp => .maxBlocks
  | uniquePct => .uniquePct
  | trimPct => .trimPct
  | workers => .workers
  | mode => .fast
  | seed => .seed
  | count => .count
  | duration => .duration
  | reportInterval => .reportInterval
  | stopAtFull => .stopAtFull
  | stopOnFailure => .stopOnFailure
  | maxDiagnostics => .maxDiagnostics

def get (c : Config) : (field : Field) → field.Value
  | .device => c.device
  | .blockSize => c.blockSize
  | .maxBlocksPerOp => c.maxBlocksPerOp
  | .uniquePct => c.uniquePct
  | .trimPct => c.trimPct
  | .workers => c.workers
  | .mode => c.mode
  | .seed => c.seed
  | .count => c.count
  | .duration => c.duration
  | .reportInterval => c.reportInterval
  | .stopAtFull => c.stopAtFull
  | .stopOnFailure => c.stopOnFailure
  | .maxDiagnostics => c.maxDiagnostics

theorem ext_get {c c' : Config} (h : ∀ field, c.get field = c'.get field) : c = c' := by
  cases c
  cases c'
  congr
  · exact h .device
  · exact h .blockSize
  · exact h .maxBlocksPerOp
  · exact h .uniquePct
  · exact h .trimPct
  · exact h .workers
  · exact h .mode
  · exact h .seed
  · exact h .count
  · exact h .duration
  · exact h .reportInterval
  · exact h .stopAtFull
  · exact h .stopOnFailure
  · exact h .maxDiagnostics

end Config

def Flag.field? (flag : Flag) : Option Config.Field :=
  Config.Field.all.find? (·.flag = flag)

namespace Options

variable {o o' : Options} {c c' : Config} {f : Files} {path : String}

def value? (o : Options) : (field : Config.Field) → Option field.Value
  | .device => o.device.map some
  | .blockSize => o.blockSize
  | .maxBlocksPerOp => o.maxBlocks
  | .uniquePct => o.uniquePct
  | .trimPct => o.trimPct
  | .workers => o.workers
  | .seed => o.seed.map some
  | .count => o.count.map some
  | .duration => o.duration.map some
  | .reportInterval => o.reportInterval
  | .maxDiagnostics => o.maxDiagnostics
  | .mode | .stopAtFull | .stopOnFailure => .none

/-- A configuration in which the fields that flags name have the values of the flags, and the others
those of `c`. -/
structure Merges (o : Options) (c c' : Config) : Prop where
  named : ∀ (field : Config.Field) x, o.value? field = some x → c'.get field = x
  kept : ∀ field : Config.Field, o.has field.flag = false → c'.get field = c.get field
  mode : o.fast = true → c'.mode = .fast
  stopAtFull : c'.stopAtFull = (c.stopAtFull || o.stopAtFull)
  stopOnFailure : c'.stopOnFailure = (c.stopOnFailure || o.stopOnFailure)

theorem isSome_value? (o : Options) (field : Config.Field) :
    (o.value? field).isSome = (o.has field.flag && !field.flag.isSwitch) := by
  cases field with
  | device | seed | count | duration =>
    exact Option.isSome_map.trans (Bool.and_true _).symm
  | mode | stopAtFull | stopOnFailure => exact (Bool.and_false _).symm
  | _ => exact (Bool.and_true _).symm

theorem merges_apply (o : Options) (c : Config) : o.Merges c (o.apply c) := by
  refine ⟨fun field x h => ?_, fun field h => ?_, fun h => if_pos h, rfl, rfl⟩
  · have plain {α : Type} {given : Option α} {base y : α} (h : given = some y) :
        given.getD base = y := by
      rw [h]
      rfl
    have optional {α : Type} {given base y : Option α} (h : given.map some = some y) :
        given.or base = y := by
      obtain ⟨z, rfl, rfl⟩ := Option.map_eq_some_iff.mp h
      rfl
    cases field with
    | device | seed | count | duration => exact optional h
    | mode | stopAtFull | stopOnFailure => cases h
    | _ => exact plain h
  · have plain {α : Type} {given : Option α} {base : α} (h : given.isSome = false) :
        given.getD base = base := by
      rw [Option.not_isSome_iff_eq_none.mp (ne_true_of_eq_false h)]
      rfl
    have optional {α : Type} {given base : Option α} (h : given.isSome = false) :
        given.or base = base := by
      rw [Option.not_isSome_iff_eq_none.mp (ne_true_of_eq_false h)]
      rfl
    cases field with
    | device | seed | count | duration => exact optional h
    | mode => exact if_neg (ne_true_of_eq_false h)
    | stopAtFull | stopOnFailure => exact (congrArg (_ || ·) h).trans (Bool.or_false _)
    | _ => exact plain h

theorem Merges.eq_apply (h : o.Merges c c') : c' = o.apply c := by
  have hm := o.merges_apply c
  refine Config.ext_get fun field => ?_
  cases hf : o.has field.flag with
  | false => rw [h.kept field hf, hm.kept field hf]
  | true =>
    cases hv : o.value? field with
    | some x => rw [h.named field x hv, hm.named field x hv]
    | none =>
      have hswitch : field.flag.isSwitch = true := by
        have hsome := o.isSome_value? field
        rw [hv, hf] at hsome
        simpa using hsome
      cases field with
      | mode => exact (h.mode hf).trans (hm.mode hf).symm
      | stopAtFull => exact h.stopAtFull
      | stopOnFailure => exact h.stopOnFailure
      | _ => cases hswitch

theorem none_apply (c : Config) : none.apply c = c := by
  refine (Merges.eq_apply ⟨fun field x h => ?_, fun _ _ => rfl,
    fun h => absurd h Bool.false_ne_true, ?_, ?_⟩).symm
  · cases field <;> cases h
  · exact (Bool.or_false _).symm
  · exact (Bool.or_false _).symm

/-- Giving the same flags again changes nothing, whatever file the first result is written to. -/
theorem apply_apply (o : Options) (c : Config) (config : Option String) :
    ({ o with config } : Options).apply (o.apply c) = o.apply c := by
  have hm := o.merges_apply c
  refine (Merges.eq_apply ⟨hm.named, fun _ _ => rfl, hm.mode, ?_, ?_⟩).symm
  · rw [hm.stopAtFull, Bool.or_assoc, Bool.or_self]
  · rw [hm.stopOnFailure, Bool.or_assoc, Bool.or_self]

def base? (o : Options) (f : Files) : Except Complaint Config :=
  o.config.elim (.ok .standard) (Config.load f)

theorem config?_of_base (h : o.base? f = .ok c) : o.config? f =
    ((o.apply c).validate.mapError fun r => .failed r.error).map fun _ => o.apply c := by
  have hbase : o.config.elim (pure Config.standard) (Config.load f) = .ok c := h
  rw [config?, hbase]
  show (((o.apply c).validate.mapError Config.Refusal.error).mapError Complaint.failed >>=
    fun _ => pure (o.apply c)) = _
  cases (o.apply c).validate <;> rfl

theorem config?_of_error {e : Complaint} (h : o.base? f = .error e) : o.config? f = .error e := by
  have hbase : o.config.elim (pure Config.standard) (Config.load f) = .error e := h
  rw [config?, hbase]
  rfl

theorem load_of_content? (text : String) (h : f.content? path = some (.ofBytes text.toUTF8))
    (hsize : text.utf8ByteSize ≤ Bytes.limit) (hc : Config.ofToml text = .ok c) :
    Config.load f path = .ok c := by
  have hbytes : (Extent.ofBytes text.toUTF8).toBytes = text.toUTF8 :=
    Extent.toBytes_ofBytes hsize
  have htext : f.text? path = some text := by
    rw [Files.text?, Files.bytes?, h, Option.map_some, hbytes]
    exact Text.fromUTF8?_toUTF8 text
  rw [Config.load, htext]
  exact congrArg (Except.mapError _) hc

theorem exists_load_error (h : f.text? path = .none ∨
    ∃ text u, f.text? path = some text ∧ Config.ofToml text = .error u) :
    ∃ e, Config.load f path = .error e := by
  unfold Config.load
  rcases h with h | ⟨text, u, h, hu⟩
  · rw [h]
    exact ⟨_, rfl⟩
  · rw [h]
    exact ⟨_, congrArg (Except.mapError _) hu⟩

/-- How the values of flags are written.  A switch that is given is on. -/
def format : Config.Format String where
  uint64? s := (uint64 s).toOption
  uint8? s := (uint8 s).toOption
  bool? _ := some true
  text? := some
  name? _ := some "fast"
  isNull _ := false

/-- Writes a flag and its value into a configuration, as a field of a settings file is. -/
def write (c : Config) (given : Flag × String) : Except Unreadable Config :=
  match given.1.field? with
  | some field => format.assign c given.2 field
  | .none => .ok c

theorem uint64_of_ok {s : String} {n : UInt64} (h : uint64 s = .ok n) : format.uint64 s = .ok n :=
  congrArg (fun x : Except Unreadable UInt64 => orMalformed x.toOption) h

theorem uint8_of_ok {s : String} {n : UInt8} (h : uint8 s = .ok n) : format.uint8 s = .ok n :=
  congrArg (fun x : Except Unreadable UInt8 => orMalformed x.toOption) h

/-- A flag that is given does to the configuration what a field of a settings file would. -/
theorem write_of_set {flag : Flag} {value : String} (h : o.set flag value = .ok o') (c : Config) :
    write (o.apply c) (flag, value) = .ok (o'.apply c) := by
  cases flag with
  | blockSize | maxBlocks | workers | maxDiagnostics =>
    obtain ⟨n, hn, rfl⟩ := map_eq_ok (mapError_eq_ok h)
    show (format.uint64 value >>= _) = _
    rw [uint64_of_ok hn]
    rfl
  | uniquePct | trimPct =>
    obtain ⟨n, hn, rfl⟩ := map_eq_ok (mapError_eq_ok h)
    show (format.uint8 value >>= _) = _
    rw [uint8_of_ok hn]
    rfl
  | count | seed =>
    obtain ⟨n, hn, rfl⟩ := map_eq_ok (mapError_eq_ok h)
    show ((format.uint64 value).map some >>= _) = _
    rw [uint64_of_ok hn]
    rfl
  | duration =>
    obtain ⟨n, hn, rfl⟩ := map_eq_ok (mapError_eq_ok h)
    show ((Duration.parse value).map some >>= _) = _
    rw [hn]
    rfl
  | reportInterval =>
    obtain ⟨n, hn, rfl⟩ := map_eq_ok (mapError_eq_ok h)
    show (Duration.parse value >>= _) = _
    rw [hn]
    rfl
  | device | config | summaryOut =>
    simp only [set] at h
    split at h
    · cases h
    · cases h
      rfl
  | fast | verbose =>
    cases h
    rfl
  | stopAtFull =>
    cases h
    exact congrArg (fun b => Except.ok { o.apply c with stopAtFull := b })
      (Bool.or_true c.stopAtFull).symm
  | stopOnFailure =>
    cases h
    exact congrArg (fun b => Except.ok { o.apply c with stopOnFailure := b })
      (Bool.or_true c.stopOnFailure).symm
  | help => cases h

theorem has_of_set {flag : Flag} {value : String} (h : o.set flag value = .ok o') (other : Flag) :
    o'.has other = (o.has other || decide (other = flag)) := by
  cases flag with
  | device | config | summaryOut =>
    simp only [set] at h
    split at h
    · cases h
    · cases h
      cases other <;> simp [has]
  | stopAtFull | fast | stopOnFailure | verbose =>
    cases h
    cases other <;> simp [has]
  | help => cases h
  | _ =>
    obtain ⟨n, -, rfl⟩ := map_eq_ok (mapError_eq_ok h)
    cases other <;> simp [has]

/-- What is known of flags that were given one after another: each was given once, and together they
do what so many fields of a settings file would. -/
structure Given (given : List (Flag × String)) (o : Options) : Prop where
  nodup : (given.map Prod.fst).Nodup
  has : ∀ flag, flag ∈ given.map Prod.fst ↔ o.has flag = true
  write : ∀ c, given.foldlM write c = .ok (o.apply c)

theorem Given.nil : Given [] none :=
  ⟨List.nodup_nil, fun flag => ⟨nofun, fun h => by cases flag <;> cases h⟩, fun c =>
    congrArg Except.ok (none_apply c).symm⟩

theorem Given.concat {given : List (Flag × String)} {flag : Flag} {value : String}
    (hg : Given given o) (hf : o.has flag = false) (h : o.set flag value = .ok o') :
    Given (given ++ [(flag, value)]) o' := by
  refine ⟨?_, fun other => ?_, fun c => ?_⟩
  · have hnew : flag ∉ given.map Prod.fst := fun hmem => by
      rw [(hg.has flag).mp hmem] at hf
      cases hf
    rw [List.map_append, List.nodup_append]
    refine ⟨hg.nodup, List.pairwise_singleton _ _, fun a ha b hb he => ?_⟩
    subst he
    rw [List.mem_singleton.mp hb] at ha
    exact hnew ha
  · rw [List.map_append, List.mem_append, hg.has, has_of_set h, Bool.or_eq_true, decide_eq_true_iff]
    exact or_congr Iff.rfl List.mem_singleton
  · rw [List.foldlM_append, hg.write]
    show (Options.write (o.apply c) (flag, value) >>= pure) = _
    rw [write_of_set h]
    rfl

theorem exists_given {arguments : List String} (h : read arguments = .ok o) :
    ∃ given, Given given o :=
  Kept.read (P := fun o => ∃ given, Given given o)
    (fun ⟨_, hg⟩ hf hs => ⟨_, hg.concat hf hs⟩) ⟨[], .nil⟩ h

theorem config?_iff (h : o.base? f = .ok c) :
    o.config? f = .ok c' ↔ (o.apply c).validate = .ok () ∧ c' = o.apply c := by
  rw [config?_of_base h]
  cases (o.apply c).validate with
  | ok u => exact ⟨fun he => ⟨rfl, (Except.ok.inj he).symm⟩, fun he => congrArg Except.ok he.2.symm⟩
  | error r => exact ⟨nofun, fun he => nomatch he.1⟩

theorem base?_of_load (h : Config.load f path = .ok c) :
    ({ o with config := some path } : Options).base? f = .ok c :=
  h

/-- A settings file that cannot be read or decoded ends the program whatever the flags are.  With
one that can, or with none, the flags replace the fields that they name, only what comes of that is
checked, and it is as good as a file that says it all, with or without the flags.  The flags of a
command line do what the fields of a settings file do. -/
theorem flags_agree_with_file (f : Files) :
    (∀ path, (f.text? path = .none ∨
        ∃ text u, f.text? path = some text ∧ Config.ofToml text = .error u) →
      ∃ e, ∀ o : Options, o.config = some path → o.config? f = .error e) ∧
    (∀ (o : Options) c, o.base? f = .ok c → ∃ c', o.Merges c c' ∧
      (∀ c'', o.Merges c c'' → c'' = c') ∧
      (∀ result, o.config? f = .ok result ↔ c'.validate = .ok () ∧ result = c') ∧
      (∀ r, c'.validate = .error r → o.config? f = .error (.failed r.error)) ∧
      ∀ g path, Config.load g path = .ok c' →
        ({ none with config := some path } : Options).config? g = o.config? f ∧
        ({ o with config := some path } : Options).config? g = o.config? f) ∧
    ∀ arguments o, read arguments = .ok o → ∃ given, Given given o := by
  refine ⟨fun path h => ?_, fun o c h => ?_, fun arguments o h => exists_given h⟩
  · obtain ⟨e, he⟩ := exists_load_error h
    refine ⟨e, fun o ho => config?_of_error ?_⟩
    rw [base?, ho]
    exact he
  · refine ⟨o.apply c, o.merges_apply c, fun c'' h'' => h''.eq_apply, fun result => config?_iff h,
      fun r hr => ?_, fun g path hg => ⟨?_, ?_⟩⟩
    · rw [config?_of_base h, hr]
      rfl
    · have hnone : ({ none with config := some path } : Options).apply (o.apply c) = o.apply c :=
        none_apply (o.apply c)
      rw [config?_of_base (base?_of_load hg), config?_of_base h, hnone]
    · rw [config?_of_base (base?_of_load hg), config?_of_base h, apply_apply]

/-- A settings file that no run accepts, and a flag that makes up for it. -/
theorem flags_agree_with_file_of_percentages :
    let f : Files := ⟨.directory [("c", .file (.ofBytes "trim_pct = 60".toUTF8)),
      ("d", .file (.ofBytes "trim_pct = 60\nunique_pct = 40".toUTF8))], []⟩
    let o : Options := { none with config := some "c", uniquePct := some 40 }
    let c' : Config := { Config.standard with uniquePct := 40, trimPct := 60 }
    read ["--config=c", "-u40"] = .ok o ∧
      ({ none with config := some "c" } : Options).config? f =
        .error (.failed (Config.Refusal.percentages 51 60).error) ∧
      o.config? f = .ok c' ∧
      ({ none with config := some "d" } : Options).config? f = .ok c' ∧
      ∃ given, Given given o := by
  intro f o c'
  have hpath (name : String) (hs : name = "c" ∨ name = "d") :
      Path.read name = .ok ⟨false, [name], false⟩ := by
    have hsplit : name.splitOn "/" = [name] := by
      rcases hs with rfl | rfl <;> rw [String.splitOn] <;> iterate 2 rw [String.splitOnAux]
      · rfl
      · rfl
    rcases hs with rfl | rfl <;>
      exact Path.read_name hsplit (by decide) (by decide) (by decide) (by decide +kernel)
        (by decide +kernel)
  have hfirst : Config.load f "c" = .ok { Config.standard with trimPct := 60 } := by
    have hplace : f.locate ⟨false, ["c"], false⟩ = .ok ["c"] := rfl
    exact load_of_content? "trim_pct = 60"
      (Files.content?_of_locate (hpath "c" (.inl rfl)) hplace) (by decide) (by decide +kernel)
  have hsecond : Config.load f "d" = .ok c' := by
    have hplace : f.locate ⟨false, ["d"], false⟩ = .ok ["d"] := rfl
    exact load_of_content? "trim_pct = 60\nunique_pct = 40"
      (Files.content?_of_locate (hpath "d" (.inr rfl)) hplace) (by decide) (by decide +kernel)
  have hread : read ["--config=c", "-u40"] = .ok o := by decide +kernel
  obtain ⟨-, hmerge, hgiven⟩ := flags_agree_with_file f
  obtain ⟨c₀, -, hunique₀, -, hrefused, -⟩ := hmerge { none with config := some "c" } _ hfirst
  obtain ⟨c₁, -, hunique, haccepted, -, hsame⟩ := hmerge o _ hfirst
  obtain rfl : _ = c₀ := hunique₀ _ (merges_apply _ _)
  obtain rfl : _ = c₁ := hunique _ (merges_apply _ _)
  have hconfig : o.config? f = .ok c' := (haccepted c').mpr ⟨by decide +kernel, rfl⟩
  exact ⟨hread, hrefused _ (by decide +kernel), hconfig, (hsame f "d" hsecond).1.trans hconfig,
    hgiven _ o hread⟩

end Options

end Readback
