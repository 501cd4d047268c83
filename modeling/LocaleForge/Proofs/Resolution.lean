import LocaleForge.Proofs.Attempts
import LocaleForge.Proofs.Setting
import Mathlib.Data.List.Forall2

/-!
The names of locales are resolved before anything else is done. A name that does not stand for one file
ends the command, and only the sources have been looked at.
-/

namespace LocaleForge.Context

open Build

variable {ctx : Context} {name : String} {names : List String} {d : Disk} {s t : BuildState}

/-- The call that looks for the files of a name. -/
def lookup (ctx : Context) (name : String) : Event :=
  .expand ctx.settings.srcDir (Locale.patternFor ctx.settings.localesPattern name)

/-- The files that match a name. -/
def matching (ctx : Context) (d : Disk) (name : String) : Except Failure (List String) :=
  ctx.storage.expand ctx.settings.srcDir (Locale.patternFor ctx.settings.localesPattern name) d

/-- The file that a name stands for, or why there is none. -/
def resolved (ctx : Context) (d : Disk) (name : String) : Except Failure String :=
  match ctx.matching d name with
  | .error f => .error f
  | .ok [file] => .ok file
  | .ok [] => .error (.ofCause (.localeNotFound name))
  | .ok files => .error (.ofCause (.localeAmbiguous name files))

theorem resolved_eq_ok_iff {file : String} :
    ctx.resolved d name = .ok file ↔ ctx.matching d name = .ok [file] := by
  rw [resolved]
  constructor
  · intro h
    split at h
    case h_2 hm =>
      cases h
      exact hm
    all_goals cases h
  · intro h
    rw [h]

theorem run_resolveLocale (name : String) (s : BuildState) :
    (ctx.resolveLocale name).run.run s =
      ((ctx.resolved s.disk name).mapError .failed, { s with log := s.log ++ [ctx.lookup name] }) := by
  rw [resolveLocale, run_bind, expand, run_bind, run_note]
  simp only [run_query]
  rw [resolved, matching]
  cases ctx.storage.expand ctx.settings.srcDir (Locale.patternFor ctx.settings.localesPattern name)
      s.disk with
  | error f => rfl
  | ok files =>
    cases files with
    | nil => rfl
    | cons file files =>
      cases files with
      | nil => rfl
      | cons other files => rfl

theorem run_resolveLocales_cons (name : String) (names : List String) (s : BuildState) :
    (ctx.resolveLocales (name :: names)).run.run s =
      match ctx.resolved s.disk name with
      | .error f => (.error (.failed f), { s with log := s.log ++ [ctx.lookup name] })
      | .ok file =>
        match (ctx.resolveLocales names).run.run { s with log := s.log ++ [ctx.lookup name] } with
        | (.ok files, t) => (.ok (file :: files), t)
        | (.error stop, t) => (.error stop, t) := by
  rw [resolveLocales, List.mapM_cons, run_bind, run_resolveLocale]
  cases ctx.resolved s.disk name with
  | error f => rfl
  | ok file =>
    simp only [mapError_ok]
    rw [run_bind, resolveLocales]
    rcases (names.mapM ctx.resolveLocale).run.run { s with log := s.log ++ [ctx.lookup name] } with ⟨r, t⟩
    cases r with
    | ok files => rfl
    | error stop => rfl

theorem resolveLocale_gives_iff {file : String} : (ctx.resolveLocale name).Gives s file t ↔
    ctx.resolved s.disk name = .ok file ∧ t = { s with log := s.log ++ [ctx.lookup name] } := by
  rw [Gives, run_resolveLocale, Prod.mk.injEq, mapError_eq_ok_iff, eq_comm (a := t)]

/-- Resolving gives the files of the names, one for each. -/
theorem resolveLocales_gives_iff {files : List String} :
    (ctx.resolveLocales names).Gives s files t ↔
      List.Forall₂ (fun name file => ctx.resolved s.disk name = .ok file) names files ∧
        t = { s with log := s.log ++ names.map ctx.lookup } := by
  induction names generalizing s t files with
  | nil =>
    rw [resolveLocales, List.mapM_nil, gives_pure_iff, List.forall₂_nil_left_iff, List.map_nil,
      List.append_nil, eq_comm, eq_comm (a := t)]
  | cons name names ih =>
    simp only [resolveLocales, List.mapM_cons, gives_bind_iff, gives_pure_iff, resolveLocale_gives_iff]
    simp only [resolveLocales] at ih
    constructor
    · rintro ⟨file, _, ⟨hname, rfl⟩, files, _, hrest, rfl, rfl⟩
      obtain ⟨hfiles, rfl⟩ := ih.1 hrest
      refine ⟨.cons hname hfiles, ?_⟩
      simp only [List.map_cons, List.append_assoc, List.cons_append, List.nil_append]
    · rintro ⟨hfiles, rfl⟩
      cases hfiles with
      | cons hname hfiles =>
        refine ⟨_, _, ⟨hname, rfl⟩, _, _, ih.2 ⟨hfiles, rfl⟩, rfl, ?_⟩
        simp only [List.map_cons, List.append_assoc, List.cons_append, List.nil_append]

/-- If resolving names fails, it is for the first one that does not stand for one file. Nothing is done
but to look for the files of the names up to that one. -/
theorem run_resolveLocales_error {stop : Stop}
    (h : (ctx.resolveLocales names).run.run s = (.error stop, t)) :
    ∃ front name back f, names = front ++ name :: back ∧
      (∀ n ∈ front, ∃ file, ctx.matching s.disk n = .ok [file]) ∧
      ctx.resolved s.disk name = .error f ∧ stop = .failed f ∧
      t = { s with log := s.log ++ (front ++ [name]).map ctx.lookup } := by
  induction names generalizing s with
  | nil => cases h
  | cons name names ih =>
    rw [run_resolveLocales_cons] at h
    cases hname : ctx.resolved s.disk name with
    | error f =>
      rw [hname] at h
      cases h
      exact ⟨[], name, names, f, rfl, fun n hn => absurd hn List.not_mem_nil, hname, rfl, rfl⟩
    | ok file =>
      rw [hname] at h
      simp only at h
      split at h
      case h_1 => cases h
      case h_2 stop' t' hrest =>
        cases h
        obtain ⟨front, bad, back, f, rfl, hfront, hbad, rfl, rfl⟩ := ih hrest
        refine ⟨name :: front, bad, back, f, rfl, ?_, hbad, rfl, ?_⟩
        · exact List.forall_mem_cons.2 ⟨⟨file, resolved_eq_ok_iff.1 hname⟩, hfront⟩
        · simp only [List.append_assoc, List.cons_append, List.nil_append, List.map_cons]

/-- A name that does not stand for one file makes resolving fail wherever it comes in the list. -/
theorem resolveLocales_error_of_mem (hmem : name ∈ names)
    (hbad : ∀ file, ctx.matching s.disk name ≠ .ok [file]) :
    ∃ stop, ((ctx.resolveLocales names).run.run s).1 = .error stop := by
  induction names generalizing s with
  | nil => exact absurd hmem List.not_mem_nil
  | cons first names ih =>
    rw [run_resolveLocales_cons]
    cases hfirst : ctx.resolved s.disk first with
    | error f => exact ⟨_, rfl⟩
    | ok file =>
      have hrest : name ∈ names := by
        rcases List.mem_cons.1 hmem with rfl | hrest
        · exact absurd (resolved_eq_ok_iff.1 hfirst) (hbad file)
        · exact hrest
      obtain ⟨stop, hstop⟩ := ih hrest (s := { s with log := s.log ++ [ctx.lookup first] }) hbad
      refine ⟨stop, ?_⟩
      simp only
      split
      case h_1 hok =>
        rw [hok] at hstop
        cases hstop
      case h_2 herror =>
        rw [herror] at hstop
        cases hstop
        rfl

/-- Resolving fails exactly when some name does not stand for one file. A command then ends with this
very failure, in a state in which nothing is different but that files of names have been looked for;
and so it ends at once when it is asked for no locale at all. -/
theorem failed_resolution_ends_command (ctx : Context) (names : List String) (s : BuildState) :
    ((∃ stop, ((ctx.resolveLocales names).run.run s).1 = .error stop) ↔
      ∃ name ∈ names, ∀ file, ctx.matching s.disk name ≠ .ok [file]) ∧
    (∀ stop t, (ctx.resolveLocales names).run.run s = (.error stop, t) →
      (ctx.custom names).run.run s = (.error stop, t) ∧
      (∀ plan : ReleasePlan, plan.locales = names → (ctx.release plan).run.run s = (.error stop, t)) ∧
      ∃ front name back f, names = front ++ name :: back ∧
        (∀ n ∈ front, ∃ file, ctx.matching s.disk n = .ok [file]) ∧
        ctx.resolved s.disk name = .error f ∧ stop = .failed f ∧
        t = { s with log := s.log ++ (front ++ [name]).map ctx.lookup }) ∧
    (ctx.custom []).run.run s = (.error (.failed (.ofCause .noLocales)), s) := by
  refine ⟨⟨?_, ?_⟩, ?_, rfl⟩
  · rintro ⟨stop, hstop⟩
    obtain ⟨front, name, back, f, rfl, -, hbad, -⟩ := run_resolveLocales_error (Prod.ext hstop rfl)
    refine ⟨name, by simp, fun file hfile => ?_⟩
    rw [resolved_eq_ok_iff.2 hfile] at hbad
    cases hbad
  · rintro ⟨name, hmem, hbad⟩
    exact resolveLocales_error_of_mem hmem hbad
  · intro stop t h
    have hnames := run_resolveLocales_error h
    refine ⟨?_, ?_, hnames⟩
    · obtain ⟨front, name, back, -, rfl, -⟩ := hnames
      rw [custom, if_neg (by simp)]
      exact run_bind_of_error h
    · rintro plan rfl
      exact run_bind_of_error h

set_option maxRecDepth 10000 in
theorem failed_resolution_ends_command_small :
    ∃ stop t, ((small .small "b").custom ["fr"]).run.run (.fresh .used) = (.error stop, t) ∧
      ((small .small "b").release ⟨[.esm], true, ["fr"]⟩).run.run (.fresh .used) = (.error stop, t) ∧
      t.disk = .used ∧ t.shelf = {} ∧ t.console = [] ∧
      t.log = [.expand ⟨"/src"⟩ "l/fr.js"] := by
  obtain ⟨hfails, hends, -⟩ := failed_resolution_ends_command (small .small "b") ["fr"] (.fresh .used)
  have hnone : ((small .small "b").matching .used "fr").toOption = some [] := by decide +kernel
  obtain ⟨stop, hstop⟩ := hfails.2 ⟨"fr", List.mem_cons_self, fun file hfile => by
    rw [show (BuildState.fresh .used).disk = .used from rfl] at hfile
    rw [hfile] at hnone
    cases hnone⟩
  obtain ⟨t, ht⟩ : ∃ t, ((small .small "b").resolveLocales ["fr"]).run.run (.fresh .used) =
    (.error stop, t) := ⟨_, Prod.ext hstop rfl⟩
  obtain ⟨hcustom, hrelease, front, name, back, f, hnames, -, -, -, rfl⟩ := hends stop t ht
  refine ⟨stop, _, hcustom, hrelease _ rfl, rfl, rfl, rfl, ?_⟩
  obtain ⟨rfl, rfl, rfl⟩ : front = [] ∧ name = "fr" ∧ back = [] := by
    cases front with
    | nil => simpa [eq_comm] using hnames
    | cons n front => simp at hnames
  decide +kernel

end LocaleForge.Context
