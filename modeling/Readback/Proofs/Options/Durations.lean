import Readback.Program
import Readback.Proofs.Json.Config
import Readback.Proofs.Options.Reader

namespace Readback

namespace Config

theorem Fits.standard : standard.Fits :=
  ⟨rfl, nofun⟩

namespace Format

variable {α : Type} {f : Format α} {c c' : Config} {v : α}

theorem fits_of_duration {d : Duration} (h : f.duration v = .ok d) : d.fits = true := by
  obtain ⟨s, -, h⟩ := bind_eq_ok h
  exact Duration.fits_of_parse h

theorem fits_of_assign (hc : c.Fits) {field : Field} (h : f.assign c v field = .ok c') :
    c'.Fits := by
  cases field with
  | duration =>
    obtain ⟨d, hd, h⟩ := bind_eq_ok h
    cases h
    refine ⟨hc.reportInterval, fun d' hd' => ?_⟩
    subst hd'
    rw [orNull] at hd
    split at hd
    · cases hd
    · obtain ⟨d, hread, he⟩ := map_eq_ok hd
      cases he
      exact fits_of_duration hread
  | reportInterval =>
    obtain ⟨d, hd, h⟩ := bind_eq_ok h
    cases h
    exact ⟨fits_of_duration hd, hc.duration⟩
  | _ =>
    obtain ⟨x, -, h⟩ := bind_eq_ok h
    cases h
    exact ⟨hc.reportInterval, hc.duration⟩

theorem fits_of_assignAll (hc : c.Fits) {given : List Field} {fields : List (Option String × α)}
    (h : f.assignAll c given fields = .ok c') : c'.Fits := by
  induction fields generalizing c given with
  | nil =>
    cases h
    exact hc
  | cons p rest ih =>
    obtain ⟨field, -, h⟩ := bind_eq_ok h
    split at h
    · cases h
    · obtain ⟨c₁, hc₁, h⟩ := bind_eq_ok h
      exact ih (fits_of_assign hc hc₁) h

end Format

theorem fits_of_ofToml {s : String} {c : Config} (h : ofToml s = .ok c) : c.Fits := by
  obtain ⟨fields, -, h⟩ := bind_eq_ok h
  exact Format.fits_of_assignAll .standard h

theorem fits_of_load {f : Files} {path : String} {c : Config} (h : load f path = .ok c) :
    c.Fits := by
  unfold load at h
  split at h
  · cases h
  · exact fits_of_ofToml (mapError_eq_ok h)

end Config

namespace Options

structure Fits (o : Options) : Prop where
  reportInterval : ∀ d, o.reportInterval = some d → d.fits = true
  duration : ∀ d, o.duration = some d → d.fits = true

variable {o o' : Options}

theorem fits_of_set (ho : o.Fits) {f : Flag} {value : String} (h : o.set f value = .ok o') :
    o'.Fits := by
  have hkeep : ∀ o' : Options, o'.reportInterval = o.reportInterval → o'.duration = o.duration →
      o'.Fits := fun o' hr hd => ⟨hr ▸ ho.reportInterval, hd ▸ ho.duration⟩
  cases f with
  | duration =>
    obtain ⟨d, hd, rfl⟩ := map_eq_ok (mapError_eq_ok h)
    refine ⟨ho.reportInterval, fun d' hd' => ?_⟩
    cases hd'
    exact Duration.fits_of_parse hd
  | reportInterval =>
    obtain ⟨d, hd, rfl⟩ := map_eq_ok (mapError_eq_ok h)
    refine ⟨fun d' hd' => ?_, ho.duration⟩
    cases hd'
    exact Duration.fits_of_parse hd
  | device | config | summaryOut =>
    simp only [set] at h
    split at h
    · cases h
    · cases h
      exact hkeep _ rfl rfl
  | stopAtFull | fast | stopOnFailure | verbose =>
    cases h
    exact hkeep _ rfl rfl
  | help => cases h
  | _ =>
    obtain ⟨x, -, rfl⟩ := map_eq_ok (mapError_eq_ok h)
    exact hkeep _ rfl rfl

theorem Fits.none : none.Fits :=
  ⟨nofun, nofun⟩

theorem fits_of_read {arguments : List String} (h : read arguments = .ok o) : o.Fits :=
  Kept.read (fun ho _ h => fits_of_set ho h) Fits.none h

theorem Fits.apply (ho : o.Fits) {c : Config} (hc : c.Fits) : (o.apply c).Fits := by
  constructor
  · show (o.reportInterval.getD c.reportInterval).fits = true
    cases hr : o.reportInterval with
    | none => exact hc.reportInterval
    | some d => exact ho.reportInterval d hr
  · intro d (hd : o.duration.or c.duration = some d)
    cases ho' : o.duration with
    | none =>
      rw [ho'] at hd
      exact hc.duration d hd
    | some d' =>
      rw [ho'] at hd
      cases hd
      exact ho.duration _ ho'

theorem Fits.config? (ho : o.Fits) {f : Files} {c : Config} (h : o.config? f = .ok c) : c.Fits := by
  obtain ⟨base, hbase, h⟩ := bind_eq_ok h
  obtain ⟨u, -, h⟩ := bind_eq_ok h
  cases h
  refine ho.apply ?_
  cases hpath : o.config with
  | none =>
    rw [hpath] at hbase
    cases hbase
    exact .standard
  | some path =>
    rw [hpath] at hbase
    exact Config.fits_of_load hbase

end Options

end Readback
