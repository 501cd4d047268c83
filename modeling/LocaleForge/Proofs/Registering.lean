import LocaleForge.Proofs.Attempts
import LocaleForge.Proofs.Setting
import Mathlib.Data.List.Nodup
import Mathlib.Data.List.Perm.Subperm

/-!
The check of the registered locales. It only counts: a requested locale that has not been registered
may be outweighed by one that nobody asked for, or by one that is registered twice. Where neither is
possible the check is exact.
-/

namespace LocaleForge.Context

open Build

variable {ctx : Context} {bundle : Path} {defaultLocale : String} {requested registered : List String}
  {s t : BuildState}

/-- The registered locales besides the default one. -/
def besides (defaultLocale : String) (registered : List String) : List String :=
  registered.filter (· != defaultLocale)

theorem mem_besides {name : String} :
    name ∈ besides defaultLocale registered ↔ name ∈ registered ∧ name ≠ defaultLocale := by
  rw [besides, List.mem_filter, bne_iff_ne]

theorem run_verifyLocales (probed : (ctx.registered bundle).Gives s registered t) :
    (ctx.verifyLocales bundle defaultLocale requested).run.run s =
      (if (besides defaultLocale registered).length = requested.length then .ok requested.length
        else .error (.failed (.ofCause (.missingParents requested (besides defaultLocale registered)))),
        t) := by
  rw [verifyLocales, run_bind_of_ok probed, besides]
  simp only
  split
  case isTrue hcount => rw [run_pure, hcount]
  case isFalse => rfl

theorem verifyLocales_gives_iff (probed : (ctx.registered bundle).Gives s registered t) {n : Nat}
    {u : BuildState} : (ctx.verifyLocales bundle defaultLocale requested).Gives s n u ↔
      (besides defaultLocale registered).length = requested.length ∧ n = requested.length ∧ u = t := by
  rw [Gives, run_verifyLocales probed, Prod.mk.injEq]
  split
  case isTrue hcount => simp [hcount, eq_comm]
  case isFalse hcount => simp [hcount]

/-- Without repetition and surplus the counts tell the truth. -/
theorem perm_besides (once : (besides defaultLocale registered).Nodup)
    (only : besides defaultLocale registered ⊆ requested)
    (count : (besides defaultLocale registered).length = requested.length) :
    (besides defaultLocale registered).Perm requested :=
  (once.subperm only).perm_of_length_le (Nat.le_of_eq count.symm)

theorem perm_besides_of_registered (distinct : requested.Nodup) (other : defaultLocale ∉ requested)
    (all : ∀ name ∈ requested, name ∈ registered)
    (count : (besides defaultLocale registered).length ≤ requested.length) :
    requested.Perm (besides defaultLocale registered) := by
  have hsub : requested ⊆ besides defaultLocale registered := fun name hname =>
    mem_besides.2 ⟨all name hname, fun heq => other (heq ▸ hname)⟩
  exact (distinct.subperm hsub).perm_of_length_le count

/-- If no locale is registered twice and none that nobody asked for, besides the default one, then the
check passes only when all requested locales are registered. For requests that repeat no name and leave
out the default one it passes just then. -/
theorem verifyLocales_exact (probed : (ctx.registered bundle).Gives s registered t)
    (once : (besides defaultLocale registered).Nodup)
    (only : besides defaultLocale registered ⊆ requested) :
    (∀ n u, (ctx.verifyLocales bundle defaultLocale requested).Gives s n u →
      n = requested.length ∧ u = t ∧ ∀ name ∈ requested, name ∈ registered) ∧
    (requested.Nodup → defaultLocale ∉ requested →
      ((∃ n u, (ctx.verifyLocales bundle defaultLocale requested).Gives s n u) ↔
        ∀ name ∈ requested, name ∈ registered)) := by
  have sound : ∀ n u, (ctx.verifyLocales bundle defaultLocale requested).Gives s n u →
      n = requested.length ∧ u = t ∧ ∀ name ∈ requested, name ∈ registered := by
    intro n u verified
    obtain ⟨count, hn, hu⟩ := (verifyLocales_gives_iff probed).1 verified
    refine ⟨hn, hu, fun name hname => ?_⟩
    have hmem := (perm_besides once only count).mem_iff.2 hname
    exact (mem_besides.1 hmem).1
  refine ⟨sound, fun distinct other => ⟨?_, fun all => ?_⟩⟩
  · rintro ⟨n, u, verified⟩
    exact (sound n u verified).2.2
  · have hshort := (once.subperm only).length_le
    have hperm := perm_besides_of_registered distinct other all hshort
    exact ⟨_, _, (verifyLocales_gives_iff probed).2 ⟨hperm.length_eq.symm, rfl, rfl⟩⟩

/-- A bundle that registers the default locale and two others, of which both were requested. -/
theorem verifyLocales_exact_small :
    let ctx := { small .small "b" with probe := { registered := fun _ d => (.ok ["en", "fr", "de"], d) } }
    ∃ t, (ctx.registered ⟨"x.js"⟩).Gives (.fresh .small) ["en", "fr", "de"] t ∧
      (besides "en" ["en", "fr", "de"]).Nodup ∧ besides "en" ["en", "fr", "de"] ⊆ ["de", "fr"] ∧
      (ctx.verifyLocales ⟨"x.js"⟩ "en" ["de", "fr"]).Gives (.fresh .small) 2 t := by
  intro ctx
  have probed : (ctx.registered ⟨"x.js"⟩).Gives (.fresh .small) ["en", "fr", "de"] _ := rfl
  have once : (besides "en" ["en", "fr", "de"]).Nodup := by decide
  have only : besides "en" ["en", "fr", "de"] ⊆ ["de", "fr"] := by decide
  refine ⟨_, probed, once, only, ?_⟩
  obtain ⟨sound, complete⟩ := verifyLocales_exact probed once only
  obtain ⟨n, u, verified⟩ := (complete (by decide) (by decide)).2 (by decide)
  obtain ⟨rfl, rfl, -⟩ := sound n u verified
  exact verified

/-- A bundle that registers another locale in the place of the requested one passes the check. -/
theorem unregistered_locale_verified :
    let ctx := { small .small "b" with probe := { registered := fun _ d => (.ok ["en", "de"], d) } }
    ∃ t, (ctx.registered ⟨"x.js"⟩).Gives (.fresh .small) ["en", "de"] t ∧
      (ctx.verifyLocales ⟨"x.js"⟩ "en" ["fr"]).Gives (.fresh .small) 1 t ∧
      ¬ ∀ name ∈ ["fr"], name ∈ ["en", "de"] :=
  ⟨_, rfl, rfl, by decide⟩

end LocaleForge.Context
