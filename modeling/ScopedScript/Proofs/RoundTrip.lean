import ScopedScript.Proofs.Grammar.Completeness
import ScopedScript.Proofs.RoundTrip.Text

/-!
# Writing and reading programs

What is read from a source is written as a text that is read as the same program, up to the places
of its tokens. Written again, the program gives the same text.

The argument goes through token kinds. Tokens that are read derive a sound tree that fits in the
room there is for nested constructs; the text of a sound tree is read as its token kinds; and token
kinds of a sound tree derive it again in the same room, so that written parentheses never exceed
the limit that the source kept.
-/

namespace ScopedScript

/-- A program that is read from a source is read again from its own text, up to places; so writing
it again gives the same text. -/
theorem parse_text {source : String} {ts : List Token} {p : Program}
    (htokenize : tokenize source = .ok ts) (hparse : parse ts = .ok p) :
    ∃ ts' p', tokenize p.text = .ok ts' ∧ parse ts' = .ok p' ∧ p'.bare = p.bare ∧
      p'.text = p.text := by
  obtain ⟨rest, hprogram⟩ := parse_eq_ok.mp hparse
  obtain ⟨before, stop, rfl, _, hderived⟩ := Parser.program_eq_ok_iff.mp hprogram
  have hreadable := (List.forall_mem_append.mp (readable_of_tokenize htokenize)).1
  have hfits := hderived.fits hreadable
  have hlexes := Statement.prints_list 0 p hfits Lexes.nil
  rw [List.append_nil, List.append_nil] at hlexes
  obtain ⟨ts', htokenize', hkinds⟩ := Lexes.tokenize hlexes
  simp only [List.map_eq_append_iff, List.map_eq_cons_iff, List.map_eq_nil_iff] at hkinds
  obtain ⟨us, _, rfl, hus, stop', _, rfl, hstop', rfl⟩ := hkinds
  obtain ⟨p', hbare, hderived'⟩ := Statement.derives_list p hfits us hus
  have hprogram' : Parser.program (us ++ [stop']) = .ok (p', []) :=
    Parser.program_eq_ok_iff.mpr ⟨us, stop', rfl, hstop', hderived'⟩
  refine ⟨us ++ [stop'], p', htokenize', parse_eq_ok.mpr ⟨[], hprogram'⟩, hbare, ?_⟩
  rw [← Program.text_bare p', ← Program.text_bare p]
  exact congrArg Program.text hbare

/-- Parentheses that are needed, a sign before a call and an escaped quote survive. -/
theorem parse_text_print : ∃ ts p, tokenize "print((1 - x) * -f(\"a\\\"\"));" = .ok ts ∧
    parse ts = .ok p ∧ ∃ ts' p', tokenize p.text = .ok ts' ∧ parse ts' = .ok p' ∧
      p'.bare = p.bare ∧ p'.text = p.text := by
  have hread : ((tokenize "print((1 - x) * -f(\"a\\\"\"));").toOption.bind
      fun ts => (parse ts).toOption).isSome := by decide +kernel
  cases htokenize : tokenize "print((1 - x) * -f(\"a\\\"\"));" with
  | error fault =>
    rw [htokenize] at hread
    exact Bool.noConfusion hread
  | ok ts =>
    rw [htokenize] at hread
    cases hparse : parse ts with
    | error fault =>
      simp only [Except.toOption, Option.bind_some, hparse] at hread
      exact Bool.noConfusion hread
    | ok p => exact ⟨ts, p, rfl, hparse, parse_text htokenize hparse⟩

end ScopedScript
