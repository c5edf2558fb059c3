import Coordination.Proofs.Namespace.Entries
import Coordination.Proofs.Namespace.Identifiers
import Coordination.Proofs.Text.Numeral
import Coordination.Registry.Releases

/-!
# Names with ports

A name and a port are written with a colon between them, the port in plain decimal. Reading takes
any numeral that fits a port for the port, so several texts are read as one pair. What is written
of the pair is the text that it was read from exactly if the numeral there is plain.
-/

namespace Coordination.Registry

/-- The name and a numeral of the port stand around the only colon of the text. -/
def IsPortPair (s name : String) (port : UInt16) : Prop :=
  ∃ numeral : String, s.toList = name.toList ++ ':' :: numeral.toList ∧ ':' ∉ name.toList ∧
    Text.IsNumeral numeral.toList port.toNat

/-- The numeral behind the only colon has no sign and no needless zeros. -/
def HasPlainPort (s : String) : Prop :=
  ∀ pair ∈ parseHostPort? s, Text.IsPlain pair.2.toList

instance (s : String) : Decidable (HasPlainPort s) :=
  inferInstanceAs (Decidable (∀ pair ∈ parseHostPort? s, Text.IsPlain pair.2.toList))

variable {s name : String} {port : UInt16}

theorem IsPortPair.parseHostPort? (h : IsPortPair s name port) :
    ∃ numeral : String, parseHostPort? s = some (name, numeral) ∧
      Text.IsNumeral numeral.toList port.toNat := by
  obtain ⟨numeral, hs, hname, hnumeral⟩ := h
  have hcolon : ':' ∉ numeral.toList := hnumeral.not_mem (by decide) (by decide)
  exact ⟨numeral, Text.splitPair?_eq_some_iff.2 ⟨hs, hname, hcolon⟩, hnumeral⟩

/-- Such pairs are read, and nothing else is. -/
theorem parsePortPair?_eq_some_iff :
    parsePortPair? s = some (name, port) ↔ IsPortPair s name port := by
  constructor
  · intro h
    obtain ⟨⟨first, second⟩, hpair, hread⟩ := Option.bind_eq_some_iff.1 h
    obtain ⟨n, hn, heq⟩ := Option.map_eq_some_iff.1 hread
    cases heq
    obtain ⟨hs, hname, -⟩ := Text.splitPair?_eq_some_iff.1 hpair
    obtain ⟨hnumeral, hbound⟩ := Text.readNumeral?_eq_some_iff.1 hn
    refine ⟨second, hs, hname, ?_⟩
    rwa [UInt16.toNat_ofNat_of_lt' (Nat.lt_succ_of_le hbound)]
  · intro h
    obtain ⟨numeral, hpair, hnumeral⟩ := h.parseHostPort?
    have hbound : port.toNat ≤ 65535 := Nat.le_of_lt_succ port.toNat_lt
    rw [parsePortPair?, hpair, Option.bind_some]
    simp only [Text.readNumeral?_eq_some_iff.2 ⟨hnumeral, hbound⟩, Option.map_some,
      UInt16.ofNat_toNat]

/-- What is written of a name without colons and a port is such a pair. -/
theorem isPortPair_portPair (h : ':' ∉ name.toList) (port : UInt16) :
    IsPortPair (Entry.portPair name port) name port :=
  ⟨toString port.toNat, Entry.toList_portPair name port, h, Text.isNumeral_toString _⟩

/-- A name without colons and a port can be read off their pair. -/
theorem parsePortPair?_portPair (h : ':' ∉ name.toList) (port : UInt16) :
    parsePortPair? (Entry.portPair name port) = some (name, port) :=
  parsePortPair?_eq_some_iff.2 (isPortPair_portPair h port)

/-- What is written of a pair is what it was read from exactly if the port is plain there. -/
theorem IsPortPair.portPair_eq_iff (h : IsPortPair s name port) :
    Entry.portPair name port = s ↔ HasPlainPort s := by
  obtain ⟨numeral, hpair, hnumeral⟩ := h.parseHostPort?
  have hs := (Text.splitPair?_eq_some_iff.1 hpair).1
  have hplain : HasPlainPort s ↔ Text.IsPlain numeral.toList := by
    simp [HasPlainPort, hpair]
  rw [hplain, hnumeral.isPlain_iff, ← String.toList_inj, Entry.toList_portPair, hs,
    List.append_cancel_left_eq, List.cons.injEq, and_iff_right rfl, eq_comm]

end Coordination.Registry
