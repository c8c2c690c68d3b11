import Mathlib.Data.String.Basic
import Readback.Proofs.Files.Document
import Readback.Proofs.Json.Summary
import Readback.Proofs.Options.Durations
import Readback.Proofs.Run.Failure
import Readback.Proofs.Run.Finish
import Readback.Proofs.Run.Start
import Readback.Proofs.Run.Trace

namespace Readback.Program

variable {arguments : List String} {files : Files} {setting : Run.Setting} {moves : List Run.Move}
  {now : Instant} {draws : List String} {p : Program} {o : Options} {s : Summary} {after : Files}

/-- How a program that starts gets there: arguments and configuration are accepted, a device is
named and can be opened, and a run on it starts. -/
structure Started (arguments : List String) (files : Files) (setting : Run.Setting) (p : Program)
    (c : Config) (path : String) (file : OpenFile) : Prop where
  read : Options.read arguments = .ok p.options
  config : p.options.config? files = .ok c
  device : c.device = some path
  isOpen : OpenFile.open files path = .ok file
  run : (Run.start OpenFile.device file c setting).2 = .ok p.run

/-- A program that starts comes to a summary, with these files when its workers have ended. -/
inductive Returns (arguments : List String) (files : Files) (setting : Run.Setting)
    (moves : List Run.Move) (now : Instant) : Options → Summary → Files → Prop
  | intro {o : Options} {r : Run OpenFile} {c : Config} {path : String} {file : OpenFile}
      {s : Summary} (hstarted : Started arguments files setting ⟨o, r⟩ c path file)
      (hfinish : (r.play OpenFile.device moves).finish now = .ok s) :
      Returns arguments files setting moves now o s (r.play OpenFile.device moves).device.files

theorem ready_ok {c : Config} {file : OpenFile} (h : ready arguments files = .ok (o, c, file)) :
    Options.read arguments = .ok o ∧ o.config? files = .ok c ∧
      ∃ path, c.device = some path ∧ OpenFile.open files path = .ok file := by
  obtain ⟨options, hread, h⟩ := bind_eq_ok h
  obtain ⟨config, hconfig, h⟩ := bind_eq_ok h
  obtain ⟨opened, hopen, h⟩ := bind_eq_ok h
  cases h
  refine ⟨mapError_eq_ok hread, hconfig, ?_⟩
  unfold open? at hopen
  cases hdevice : c.device with
  | none =>
    rw [hdevice] at hopen
    cases hopen
  | some path =>
    rw [hdevice] at hopen
    exact ⟨path, rfl, mapError_eq_ok hopen⟩

theorem started_of_start (h : (start arguments files setting).2 = .ok p) :
    ∃ c path file, Started arguments files setting p c path file := by
  unfold start at h
  split at h
  · cases h
  · rename_i options c file hready
    obtain ⟨hread, hconfig, path, hdevice, hopen⟩ := ready_ok hready
    split at h
    · cases h
    · rename_i run hrun
      cases h
      exact ⟨c, path, file, hread, hconfig, hdevice, hopen, hrun⟩

theorem Started.start {c : Config} {path : String} {file : OpenFile}
    (h : Started arguments files setting p c path file) :
    start arguments files setting = (p.run.device.files, .ok p) := by
  have hready : ready arguments files = .ok (p.options, c, file) := by
    simp only [ready, h.read, mapError_ok, bind, Except.bind, h.config, open?, h.device, h.isOpen]
    rfl
  simp only [Program.start, hready, h.run]

theorem files_of_open {path : String} {file : OpenFile} (h : OpenFile.open files path = .ok file) :
    file.files = files ∧
      ∃ content, files.root.find file.place = some (.file content) ∧ file.size = content.size := by
  unfold OpenFile.open at h
  split at h
  · cases h
  split at h
  · rename_i content hfind
    cases h
    exact ⟨rfl, content, hfind, rfl⟩
  · cases h
  · cases h

theorem Started.runStarted {c : Config} {path : String} {file : OpenFile}
    (h : Started arguments files setting p c path file) :
    Run.Started OpenFile.device file c setting (Run.start OpenFile.device file c setting).1 p.run :=
  Run.started_of_start (Prod.ext rfl h.run)

theorem files_of_started {c : Config} {path : String} {file : OpenFile}
    (h : Started arguments files setting p c path file) : p.run.device.files = files := by
  rw [h.runStarted.device, (files_of_open h.isOpen).1]

theorem files_of_start (arguments : List String) (files : Files) (setting : Run.Setting) :
    (start arguments files setting).1 = files := by
  cases hresult : (start arguments files setting).2 with
  | ok p =>
    obtain ⟨c, path, file, hstarted⟩ := started_of_start hresult
    rw [hstarted.start, files_of_started hstarted]
  | error e =>
    unfold start at hresult ⊢
    split
    · rfl
    · rename_i options c file hready
      obtain ⟨-, -, path, -, hopen⟩ := ready_ok hready
      split
      · exact (files_of_open hopen).1
      · rename_i hrun
        rw [hready] at hresult
        simp only [hrun] at hresult
        cases hresult

theorem crash?_of_finish {r : Run OpenFile} (h : r.finish now = .ok s) :
    (Program.mk o r).crash? = none := by
  have hstopped := Run.stopped_of_collect (Run.finished_of_finish h).rates
  refine List.findSome?_eq_none_iff.mpr fun w hw => ?_
  obtain ⟨samples, hphase⟩ := hstopped w hw
  simp only [hphase]

theorem Returns.play (h : Returns arguments files setting moves now o s after) :
    play arguments files setting moves now draws = conclude o s draws after := by
  obtain ⟨hstarted, hfinish⟩ := h
  rw [Program.play, hstarted.start]
  simp only [finish, crash?_of_finish hfinish, hfinish]

theorem conclude_of_save {saved : Files} (hreport : (report s).2.isOk = true)
    (hsave : save o s draws after = (saved, .ok ())) : conclude o s draws after =
      ⟨(report s).1, saved, if s.passed then none else some (.mismatches s.stats.mismatches)⟩ := by
  rcases hlines : report s with ⟨lines, f | u⟩
  · rw [hlines] at hreport
    cases hreport
  · rw [conclude, hlines]
    simp only [hsave]

theorem conclude_of_ne_fault
    (hfault : ∀ f, (conclude o s draws after).complaint ≠ some (.faulted f)) :
    (∃ saved, save o s draws after = (saved, .ok ()) ∧ (conclude o s draws after).files = saved ∧
      (conclude o s draws after).complaint =
        if s.passed then none else some (.mismatches s.stats.mismatches)) ∨
    ∃ left e, save o s draws after = (left, .error e) ∧ (conclude o s draws after).files = left ∧
      (conclude o s draws after).complaint = some (.notWritten e) := by
  unfold conclude at hfault ⊢
  rcases hreport : report s with ⟨lines, f | u⟩
  · rw [hreport] at hfault
    exact absurd rfl (hfault f)
  · rcases hsave : save o s draws after with ⟨left, e | u⟩
    · exact .inr ⟨left, e, rfl, rfl, rfl⟩
    · exact .inl ⟨left, rfl, rfl, rfl⟩

theorem status_conclude (hfault : ∀ f, (conclude o s draws after).complaint ≠ some (.faulted f)) :
    (conclude o s draws after).status = 0 ↔
      s.stats.mismatches = 0 ∧ (save o s draws after).2 = .ok () := by
  rcases conclude_of_ne_fault hfault with ⟨saved, hsave, -, hc⟩ | ⟨left, e, hsave, -, hc⟩
  · rw [Ending.status, hc, hsave]
    by_cases hn : s.stats.mismatches = 0
    · rw [Summary.passed, decide_eq_true hn]
      exact ⟨fun _ => ⟨hn, rfl⟩, fun _ => rfl⟩
    · rw [Summary.passed, decide_eq_false hn]
      exact ⟨nofun, fun h => absurd h.1 hn⟩
  · rw [Ending.status, hc, hsave]
    exact ⟨nofun, fun h => nomatch h.2⟩

theorem status_of_load {path : String} {c : Complaint} (h : Config.load files path = .error c) :
    c.status = 1 := by
  unfold Config.load at h
  split at h
  · cases h
    rfl
  · rename_i text _
    cases hc : Config.ofToml text with
    | ok config =>
      rw [hc] at h
      cases h
    | error e =>
      rw [hc] at h
      cases e <;> cases h <;> rfl

theorem status_of_config? {c : Complaint} (h : o.config? files = .error c) : c.status = 1 := by
  rcases bind_eq_error h with hbase | ⟨base, -, h⟩
  · cases hpath : o.config with
    | none =>
      rw [hpath] at hbase
      cases hbase
    | some path =>
      rw [hpath] at hbase
      exact status_of_load hbase
  · rcases bind_eq_error h with hvalid | ⟨u, -, h⟩
    · obtain ⟨e, -, rfl⟩ := mapError_eq_error hvalid
      rfl
    · cases h

theorem status_of_open? {config : Config} {c : Complaint} (h : open? config files = .error c) :
    c.status = 1 := by
  unfold open? at h
  split at h
  · obtain ⟨e, -, rfl⟩ := mapError_eq_error h
    rfl
  · cases h
    rfl

theorem status_of_start {c : Complaint} (h : (start arguments files setting).2 = .error c)
    (hhelp : ∀ full, Options.read arguments ≠ .error (.help full)) : c.status ≠ 0 := by
  unfold start at h
  split at h
  · rename_i refusal hready
    cases h
    rcases bind_eq_error hready with hread | ⟨options, -, hready⟩
    · obtain ⟨r, hr, rfl⟩ := mapError_eq_error hread
      cases r with
      | help full => exact absurd hr (hhelp full)
      | _ => nofun
    rcases bind_eq_error hready with hconfig | ⟨config, -, hready⟩
    · rw [status_of_config? hconfig]
      nofun
    rcases bind_eq_error hready with hopen | ⟨file, -, hready⟩
    · rw [status_of_open? hopen]
      nofun
    · cases hready
  · split at h
    · rename_i e _
      cases h
      cases e <;> nofun
    · cases h

theorem play_of_error {c : Complaint} (h : (start arguments files setting).2 = .error c) :
    play arguments files setting moves now draws = ⟨[], files, some c⟩ := by
  rw [play, ← Prod.mk.eta (p := start arguments files setting), h, files_of_start]
  rfl

theorem returns_of_status (hhelp : ∀ full, Options.read arguments ≠ .error (.help full))
    (h : (play arguments files setting moves now draws).status = 0) :
    ∃ o s after, Returns arguments files setting moves now o s after := by
  cases hstart : (start arguments files setting).2 with
  | error c =>
    rw [play_of_error hstart] at h
    exact absurd h (status_of_start hstart hhelp)
  | ok p =>
    obtain ⟨c, path, file, hstarted⟩ := started_of_start hstart
    cases hfinish : (p.run.play OpenFile.device moves).finish now with
    | ok s => exact ⟨p.options, s, _, .intro hstarted hfinish⟩
    | error e =>
      rw [play, hstarted.start] at h
      simp only [finish, hfinish] at h
      split at h
      · cases h
      · cases e <;> cases h

def Sized (files : Files) : Prop :=
  ∀ place content, files.root.find place = some (.file content) → content.size < Bytes.limit

theorem Started.geometry {c : Config} {path : String} {file : OpenFile}
    (h : Started arguments files setting p c path file) (hsize : Sized files) :
    p.run.job.geometry.Fits := by
  obtain ⟨-, content, hfind, hfile⟩ := files_of_open h.isOpen
  obtain ⟨size, hdevice, hgeometry⟩ := h.runStarted.geometry
  have hlimit : size < Word.limit := by
    have hcontent := hsize file.place content hfind
    cases hdevice
    rw [hfile]
    exact Nat.lt_trans hcontent (by decide)
  rw [(Geometry.make_ok hgeometry).1]
  exact ⟨hlimit, c.blockSize.toNat_lt, Nat.lt_of_le_of_lt (Nat.div_le_self _ _) hlimit⟩

theorem Returns.fits (h : Returns arguments files setting moves now o s after)
    (hsize : Sized files) : s.config.Fits ∧ s.geometry.Fits := by
  obtain ⟨hstarted, hfinish⟩ := h
  obtain ⟨hconfig, hgeometry⟩ := Run.job_of_finish hfinish
  rw [Run.play_job] at hconfig hgeometry
  constructor
  · rw [hconfig, hstarted.runStarted.config]
    exact (Options.fits_of_read hstarted.read).config? hstarted.config
  · rw [hgeometry]
    exact hstarted.geometry hsize

def document (s : Summary) : Extent :=
  .ofBytes (Files.documentText s.json).toUTF8

/-- A file that tells what came of a run: the summary itself if its times and rates can be read,
and all the rest of it in any case. -/
structure Evidence (s : Summary) (files : Files) (path : String) : Prop where
  fields : ∃ fields, files.readJson path .ok = .ok (.object fields) ∧ s.ToldBy fields
  summary : s.Measured → ∃ s', files.readJson path Summary.ofJson = .ok s' ∧ s.Agrees s'

theorem evidence_of_save {path : String} {saved : Files} (hconfig : s.config.Fits)
    (hgeometry : s.geometry.Fits) (hout : o.summaryOut = some path)
    (hsave : save o s draws after = (saved, .ok ()))
    (hroom : (Files.documentText s.json).utf8ByteSize ≤ Bytes.limit) : Evidence s saved path := by
  rw [save, hout] at hsave
  constructor
  · obtain ⟨fields, hfields, htold⟩ := Summary.exists_toldBy hconfig hgeometry
    exact ⟨fields, Files.readJson_of_writeJson hsave s.sound_json nofun hroom
      (congrArg Except.ok hfields), htold⟩
  · intro hs
    obtain ⟨s', hs', hagrees⟩ := Summary.exists_ofJson ⟨hconfig, hgeometry, hs⟩
    exact ⟨s', Files.readJson_of_writeJson hsave s.sound_json nofun hroom hs', hagrees⟩

theorem content?_of_not_saved {left : Files} {error : FileError}
    (h : save o s draws after = (left, .error error)) (path : String) :
    left.content? path = after.content? path := by
  unfold save at h
  split at h
  · cases h
  · obtain ⟨rfl, hresult⟩ := Prod.mk.inj h
    exact Files.content?_of_not_renewed (Prod.ext rfl hresult) path

/-- Without a call for help and without a fault, the program ends with success just if it came to a
summary without mismatches and saved it where it was told to.  A summary that is saved can be read
again, mismatches or not.  Meanwhile it is found whole or not at all, however much of it the system
takes at a time, unless a drawn name is that of the summary.  One that cannot be saved changes no
file.  Before there is a run, no file has changed, and the device has been asked for nothing but its
size. -/
theorem ends_as_told (hsize : Sized files)
    (hhelp : ∀ full, Options.read arguments ≠ .error (.help full)) :
    let e := play arguments files setting moves now draws
    (∀ f, e.complaint ≠ some (.faulted f)) →
    (e.status = 0 ↔ ∃ o s after, Returns arguments files setting moves now o s after ∧
      s.stats.mismatches = 0 ∧ (save o s draws after).2 = .ok ()) ∧
    (∀ o s after path saved, Returns arguments files setting moves now o s after →
      o.summaryOut = some path → save o s draws after = (saved, .ok ()) →
      e.files = saved ∧ (e.status = 0 ↔ s.stats.mismatches = 0) ∧
      (∀ sizes,
        let w := after.renewing path draws (Files.documentText s.json).toUTF8 sizes true
        (after.changed w.1, w.2) = (saved, .ok ()) ∧
        ((∀ p, Path.read path = .ok p → ∀ name ∈ draws, p.parts.getLast? ≠ some name) → ∀ k,
          (after.changed (w.1.take k)).content? path = after.content? path ∨
            (after.changed (w.1.take k)).content? path = some (document s))) ∧
      ((Files.documentText s.json).utf8ByteSize ≤ Bytes.limit → Evidence s saved path)) ∧
    (∀ o s after left error, Returns arguments files setting moves now o s after →
      save o s draws after = (left, .error error) →
      e.files = left ∧ ∀ path, left.content? path = after.content? path) ∧
    (start arguments files setting).1 = files ∧
    (∀ c, (start arguments files setting).2 = .error c → e.files = files) ∧
    (∀ p, (start arguments files setting).2 = .ok p → p.run.device.files = files) ∧
    ∀ dev c file, dev.size file = OpenFile.device.size file →
      Run.start dev file c setting = Run.start OpenFile.device file c setting := by
  intro e hfault
  refine ⟨⟨fun h => ?_, ?_⟩, ?_, ?_, files_of_start arguments files setting, ?_, ?_, ?_⟩
  -- When does it end well?
  · obtain ⟨o, s, after, hreturns⟩ := returns_of_status hhelp h
    simp only [e, hreturns.play] at h hfault
    exact ⟨o, s, after, hreturns, (status_conclude hfault).mp h⟩
  · rintro ⟨o, s, after, hreturns, hn, hsaved⟩
    simp only [e, hreturns.play] at hfault ⊢
    exact (status_conclude hfault).mpr ⟨hn, hsaved⟩
  -- What becomes of a summary that is saved?
  · intro o s after path saved hreturns hout hsave
    simp only [e, hreturns.play] at hfault ⊢
    have hfiles : (conclude o s draws after).files = saved := by
      rcases conclude_of_ne_fault hfault with ⟨saved', hsave', hfiles, -⟩ | ⟨left, error, herror, -⟩
      · cases hsave.symm.trans hsave'
        exact hfiles
      · cases hsave.symm.trans herror
    obtain ⟨hconfig, hgeometry⟩ := hreturns.fits hsize
    refine ⟨hfiles, ?_, fun sizes => ?_, evidence_of_save hconfig hgeometry hout hsave⟩
    · rw [status_conclude hfault, hsave]
      exact ⟨fun h => h.1, fun h => ⟨h, rfl⟩⟩
    · rw [save, hout] at hsave
      have hsizes := (Files.renewing_sizes after path draws _ sizes true).trans hsave
      exact ⟨hsizes, Files.content?_of_renewing (Prod.ext rfl (Prod.mk.inj hsizes).2)⟩
  -- What if it cannot be saved?
  · intro o s after left error hreturns hsave
    simp only [e, hreturns.play] at hfault ⊢
    rcases conclude_of_ne_fault hfault with ⟨saved, hsaved, -⟩ | ⟨left', e', herror, hfiles, -⟩
    · cases hsave.symm.trans hsaved
    · cases hsave.symm.trans herror
      exact ⟨hfiles, content?_of_not_saved hsave⟩
  -- What has been done before there is a run?
  · intro c hc
    simp only [e, play_of_error hc]
  · intro p hp
    obtain ⟨c, path, file, hstarted⟩ := started_of_start hp
    exact files_of_started hstarted
  · intro dev c file hdev
    exact Run.start_congr hdev

theorem ends_as_told_of_trimmed :
    let arguments := ["-d", "disk", "-b512", "-n1", "-u0", "-T100", "-c1", "--summary-out=out"]
    let files : Files := ⟨.directory [("disk", .file (.zeroes 2048))], []⟩
    let setting : Run.Setting := ⟨false, 0, ⟨0⟩, fun _ => .words [0, 0, 0, 0, 0]⟩
    let moves : List Run.Move := List.replicate 28 (.step 0 ⟨0⟩)
    let e := play arguments files setting moves ⟨Duration.second⟩ [".tmp000000"]
    e.status = 0 ∧ ∃ s, e.files.readJson "out" Summary.ofJson = .ok s ∧ s.stats.iterations = 1 := by
  intro arguments files setting moves e
  let o : Options := { Options.none with
    device := some "disk", blockSize := some 512, workers := some 1, uniquePct := some 0,
    trimPct := some 100, count := some 1, summaryOut := some "out" }
  let c : Config := { Config.standard with
    device := some "disk", blockSize := 512, workers := 1, uniquePct := 0, trimPct := 100,
    count := some 1 }
  let file : OpenFile := ⟨files, "disk", ["disk"], 2048⟩
  have hread : Options.read arguments = .ok o := by decide +kernel
  have hopen : OpenFile.open files "disk" = .ok file := by
    have hsplit : "disk".splitOn "/" = ["disk"] := by
      rw [String.splitOn]
      iterate 5 rw [String.splitOnAux]
      rfl
    have hpath := Path.read_name hsplit (by decide) (by decide) (by decide) (by decide +kernel)
      (by decide +kernel)
    have hplace : files.place "disk" = .ok ["disk"] := by
      simp only [Files.place, hpath]
      rfl
    rw [OpenFile.open, hplace]
    rfl
  have hlock : RangeLock.make (2048 / c.blockSize.toNat) c.maxBlocksPerOp.toNat = _ :=
    Run.make_lock (by decide) (by decide)
  have hvalid : c.validate = .ok () := by decide +kernel
  have hsize : OpenFile.device.size file = .ok 2048 := rfl
  have hpolicy : c.policy setting.start (2048 / c.blockSize.toNat) = .ok _ := rfl
  have hstart := Run.start_eq hvalid hsize (by decide) (dif_pos (by decide)) hlock hpolicy rfl
  have hconfig : o.config? files = .ok c := by decide +kernel
  obtain ⟨r, hr, hend, hlist, hhere⟩ : ∃ r, (Run.start OpenFile.device file c setting).2 = .ok r ∧
      ((r.play OpenFile.device moves).finish ⟨Duration.second⟩).toOption.any (fun s =>
        (report s).2.isOk && s.passed && s.stats.iterations = 1 && s.rates.iops.isEmpty
          && s.rates.bandwidth.isEmpty && (Json.ofFloat s.elapsedSeconds).float?.isSome
          && String.utf8Len (s.json.pretty 0 ++ ['\n']) ≤ Bytes.limit) = true ∧
      (r.play OpenFile.device moves).device.files.root.list = ["disk"] ∧
      (r.play OpenFile.device moves).device.files.here = [] :=
    ⟨_, congrArg Prod.snd hstart, by decide +kernel, by decide +kernel, by decide +kernel⟩
  have hstarted : Started arguments files setting ⟨o, r⟩ c "disk" file :=
    ⟨hread, hconfig, rfl, hopen, hr⟩
  cases hfinish : (r.play OpenFile.device moves).finish ⟨Duration.second⟩ with
  | error f =>
    rw [hfinish] at hend
    cases hend
  | ok s =>
  have hreturns := Returns.intro hstarted hfinish
  generalize (r.play OpenFile.device moves).device.files = after at hlist hhere hreturns
  rw [hfinish] at hend
  simp only [Except.toOption, Option.any_some, Bool.and_eq_true, decide_eq_true_eq,
    List.isEmpty_iff] at hend
  obtain ⟨⟨⟨⟨⟨⟨hreport, hpassed⟩, hiterations⟩, hiops⟩, hbandwidth⟩, helapsed⟩, hroom⟩ := hend
  obtain ⟨saved, hsave⟩ : ∃ saved, save o s [".tmp000000"] after = (saved, .ok ()) := by
    obtain ⟨names, hnames, hlookup, hdraw⟩ : ∃ names, after.root = .directory names ∧
        names.lookup "out" = none ∧ names.lookup ".tmp000000" = none := by
      cases hroot : after.root with
      | file content =>
        rw [hroot] at hlist
        cases hlist
      | directory names =>
        rw [hroot, FileTree.list, List.map_eq_singleton_iff] at hlist
        obtain ⟨⟨name, t⟩, rfl, rfl⟩ := hlist
        exact ⟨_, rfl, rfl, rfl⟩
    have hdirectory : after.root.find after.here = some (.directory names) := by
      rw [hhere, hnames]
      rfl
    have hsplit : "out".splitOn "/" = ["out"] := by
      rw [String.splitOn]
      iterate 4 rw [String.splitOnAux]
      rfl
    have hslash : "out".startsWith "/" = false := by decide +kernel
    have hpath := Path.read_name hsplit (by decide) (by decide) (by decide) hslash
      (by decide +kernel)
    have hparent := Path.parent_name hsplit (by decide) (by decide) hslash
    have hfree : ∀ inner, names.lookup "out" ≠ some (.directory inner) := by
      intro inner h
      cases hlookup.symm.trans h
    exact Files.exists_writeJson hdirectory hparent hpath (by decide) (by decide) hfree hdraw s.json
  have hn : s.stats.mismatches = 0 := of_decide_eq_true hpassed
  have hconclude : (conclude o s [".tmp000000"] after).complaint = none := by
    rw [conclude_of_save hreport hsave, hpassed]
    rfl
  have hfiles : Sized files := by
    intro place content hfind
    rw [FileTree.eq_of_find_single hfind]
    decide
  have hhelp : ∀ full, Options.read arguments ≠ .error (.help full) := by
    intro full h
    cases hread.symm.trans h
  have hfault : ∀ f, e.complaint ≠ some (.faulted f) := by
    intro f h
    simp only [e, hreturns.play, hconclude] at h
    cases h
  have hgoes := ends_as_told hfiles hhelp hfault
  obtain ⟨hsaved, hstatus, -, hevidence⟩ := hgoes.2.1 o s after "out" saved hreturns rfl hsave
  have htext : (Files.documentText s.json).utf8ByteSize ≤ Bytes.limit := by
    rwa [Files.documentText, String.utf8ByteSize_ofList]
  have hrates : s.rates.Readable := by
    constructor
    · rw [hiops]
      exact List.forall_mem_nil _
    · rw [hbandwidth]
      exact List.forall_mem_nil _
  obtain ⟨s', hs', hagrees⟩ := (hevidence htext).summary ⟨helapsed, hrates⟩
  exact ⟨hstatus.mpr hn, s', hsaved ▸ hs', hagrees.stats ▸ hiterations⟩

end Readback.Program
