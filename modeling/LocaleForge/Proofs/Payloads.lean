import LocaleForge.Build.Collaborators
import LocaleForge.Proofs.RenderedJson
import Mathlib.Data.List.Basic

/-!
What a bundler command reads on its input: a record that names the parts of a request as they are, in
one line without control characters. So no two requests look alike to the command.
-/

namespace LocaleForge

theorem Format.word_injective : Function.Injective Format.word := by
  intro f g h
  have hread := congrArg Format.ofWord? h
  rw [Format.ofWord?_word, Format.ofWord?_word] at hread
  exact Option.some.inj hread

namespace Request

variable {r r' : Request}

/-- The record for a request determines the request. -/
theorem toJson_injective : Function.Injective toJson := by
  rintro ⟨⟨entry⟩, format, name, external, globals⟩ ⟨⟨entry'⟩, format', name', external', globals'⟩ h
  simp only [toJson, Json.record.injEq, List.cons.injEq, Prod.mk.injEq, Json.string.injEq, Json.list.injEq,
    true_and, and_true] at h
  obtain ⟨rfl, hformat, rfl, hexternal, hglobals⟩ := h
  have hstring : Function.Injective Json.string := fun _ _ => Json.string.inj
  have hfield : Function.Injective fun f : String × String => (f.1, Json.string f.2) := by
    intro f g h
    obtain ⟨hk, hv⟩ := Prod.mk.inj h
    exact Prod.ext hk (Json.string.inj hv)
  obtain rfl := Format.word_injective hformat
  obtain rfl := List.map_injective_iff.2 hstring hexternal
  obtain rfl := List.map_injective_iff.2 hfield hglobals
  rfl

theorem parse?_payload (r : Request) : Json.parse? r.payload = some r.toJson :=
  Json.parse?_render r.toJson

theorem payload_eq_iff : r'.payload = r.payload ↔ r' = r := by
  refine ⟨fun h => toJson_injective (Option.some.inj ?_), fun h => h ▸ rfl⟩
  rw [← parse?_payload, ← parse?_payload, h]

/-- A bundler command gets the payload of the request as its input. The payload is read back as a
record of just the five parts of the request, each with its text and in its order; another request has
another payload; and no character of a payload comes before the blank. -/
theorem payload_reads_back (r : Request) :
    (∀ command dir d, (Bundler.ofCommand command dir).reply r d =
      Shell.capture d dir "sh" ["-c", command] ("bundler (" ++ r.entry.text ++ ")") (some r.payload)) ∧
    Json.parse? r.payload = some (.record [
      ("entry", .string r.entry.text),
      ("format", .string r.format.word),
      ("name", .string r.name),
      ("external", .list (r.external.map .string)),
      ("globals", .record (r.globals.map fun (k, v) => (k, .string v)))]) ∧
    (∀ r' : Request, r'.payload = r.payload ↔ r' = r) ∧
    ∀ c ∈ r.payload.toList, ' ' ≤ c := by
  refine ⟨fun _ _ _ => rfl, parse?_payload r, fun _ => payload_eq_iff, fun c hc => ?_⟩
  rw [payload, Json.render, String.toList_ofList] at hc
  exact Json.blank_le_chars hc

/-- A quote, a line end, a backslash and a control character in one request. -/
example :
    (Request.mk ⟨"a\"b"⟩ .esm "n\n" ["\\"] [("\x01", "é")]).payload =
      "\x7b\"entry\":\"a\\\"b\",\"format\":\"esm\",\"name\":\"n\\n\",\"external\":[\"\\\\\"],\"globals\":\x7b\"\\u0001\":\"é\"\x7d\x7d" := by
  decide +kernel

end Request

end LocaleForge
