import MissionScript.Proofs.DecoderLocality
import MissionScript.Symbols.BuiltIn

/-!
# The decoder's reports

The decoder reports an id that its table does not resolve and a pair that the end of the segment
cuts off. Each report belongs to a token: a look-up that gives a bare id leaves the message about
it, every other pair leaves none (`reports_pairToken`), and a dropped marker leaves messages about
the marker rules at most. So along a whole run the reports are those of the tokens, one for each
bare id and for the terminator and in their order, and what is left from a span on is the report
of its token and then what is left from its end on (`reports_of_tokens`).
-/

namespace MissionScript

namespace Message

/-- Whether a message is about a token that could not be read in full. -/
def isReport : Message → Bool
  | unresolvedId _ | orphanPrefix _ => true
  | _ => false

/-- The messages of a log about tokens that could not be read in full. -/
def reports (log : List Message) : List Message := log.filter isReport

theorem reports_append (l l' : List Message) : reports (l ++ l') = reports l ++ reports l' :=
  List.filter_append ..

end Message

/-- The message about a token of a segment with the given last byte. -/
def Token.report? (last : Option UInt8) : Token → Option Message
  | unknown id => some (.unresolvedId id)
  | terminator => last.map .orphanPrefix
  | _ => none

namespace Decode

open Message (reports reports_append)

variable {rule : MarkerRule} {functions : FunctionTable} {last : Option UInt8}

/-! ## One step -/

theorem reports_lookup (id : UInt8) :
    reports (lookup functions id).log = ((lookup functions id).value.report? last).toList := by
  unfold lookup
  split <;> rfl

theorem reports_pairToken (p s : UInt8) (ahead : List UInt8) :
    reports (pairToken functions p s ahead).log
      = ((pairToken functions p s ahead).value.report? last).toList := by
  rcases pairToken_cases functions p s ahead with
    ⟨id, h⟩ | ⟨text, -, h⟩ | ⟨b, -, h⟩ | ⟨-, h⟩ | ⟨-, h⟩
  · rw [h]
    exact reports_lookup id
  all_goals
    rw [h]
    rfl

theorem reports_markerLog (offset : Nat) (ahead : List UInt8) :
    reports (markerLog offset ahead) = [] := by
  cases ahead with
  | nil => rfl
  | cons b ahead =>
    rw [markerLog]
    split_ifs <;> rfl

/-! ## A whole run -/

/-- A run whose reports are those of its tokens, in order. -/
def Accounts (last : Option UInt8) (run : Logged (List Spanned)) : Prop :=
  reports run.log = (run.value.map Spanned.token).filterMap (Token.report? last)

theorem accounts_pure_nil : Accounts last (pure []) := rfl

theorem Accounts.emit {later : Logged (List Spanned)} (h : Accounts last later) {span : Spanned}
    {log : List Message} (hlog : reports log = (span.token.report? last).toList) :
    Accounts last (emit span log later) := by
  unfold Accounts at h ⊢
  rw [log_emit, reports_append, hlog, h, value_emit, List.map_cons, List.filterMap_cons]
  cases span.token.report? last <;> rfl

theorem accounts_spansFrom (rule : MarkerRule) (functions : FunctionTable) :
    ∀ (bytes : List UInt8) (start pos : Nat), (∀ b ∈ bytes.getLast?, last = some b) →
      Accounts last (spansFrom rule functions start pos bytes)
  | [], _, _, _ => accounts_pure_nil
  | [p], start, pos, hlast => by
    by_cases hp : p < 0x80
    · rw [spansFrom_low hp]
      exact accounts_pure_nil.emit rfl
    · rw [spansFrom_orphan hp]
      obtain rfl := hlast p rfl
      exact accounts_pure_nil.emit rfl
  | p :: s :: rest, start, pos, hlast => by
    have hbehind : ∀ b ∈ (s :: rest).getLast?, last = some b := by
      rwa [List.getLast?_cons_cons] at hlast
    have hrest : ∀ b ∈ rest.getLast?, last = some b := by
      intro b hb
      refine hbehind b ?_
      rw [List.getLast?_cons, Option.mem_def.1 hb]
      rfl
    by_cases hp : p < 0x80
    · rw [spansFrom_low hp]
      exact (accounts_spansFrom rule functions (s :: rest) (pos + 1) (pos + 1) hbehind).emit rfl
    have later := accounts_spansFrom rule functions rest (pos + 2) (pos + 2) hrest
    by_cases hs : s < 0x80
    · rw [spansFrom_pairChar hp hs]
      exact later.emit rfl
    by_cases hm : p = 0x81 ∧ s = 0x81
    · obtain ⟨rfl, rfl⟩ := hm
      cases hd : rule.drops rest with
      | false =>
        rw [spansFrom_keptMarker hd]
        exact later.emit (reports_markerLog pos rest)
      | true =>
        -- The run goes on from the second marker, with no span for the first.
        rw [spansFrom_droppedMarker hd]
        have h := accounts_spansFrom rule functions (0x81 :: rest) start (pos + 1) hbehind
        unfold Accounts at h ⊢
        rw [reports_append, reports_markerLog, List.nil_append, h]
    · rw [spansFrom_pair hp hs hm]
      exact later.emit (reports_pairToken p s rest)

theorem accounts_decodeSpans {segment : List UInt8}
    (hlast : ∀ b ∈ segment.getLast?, last = some b) :
    Accounts last (decodeSpans rule functions segment) :=
  accounts_spansFrom rule functions segment 0 0 hlast

/-! ## From a span on -/

theorem tokens_of_piece {piece rest : List UInt8} {token : Token}
    (h : Piece rule functions piece rest token) :
    (decodeSpans rule functions (piece ++ rest)).value.map Spanned.token
      = token :: (decodeSpans rule functions rest).value.map Spanned.token := by
  rw [decodeSpans, spansFrom_of_piece h, spansFrom_eq_shift, List.map_cons, List.map_map]
  rfl

/-- A piece in front of some bytes leaves the report of its token and no other. -/
theorem reports_of_piece {piece rest : List UInt8} {token : Token}
    (h : Piece rule functions piece rest token)
    (hlast : ∀ b ∈ (piece ++ rest).getLast?, last = some b) :
    reports (decodeSpans rule functions (piece ++ rest)).log
      = (token.report? last).toList ++ reports (decodeSpans rule functions rest).log := by
  have hrest : ∀ b ∈ rest.getLast?, last = some b := by
    intro b hb
    refine hlast b ?_
    rw [List.getLast?_append, Option.mem_def.1 hb]
    rfl
  have hwhole : Accounts last (decodeSpans rule functions (piece ++ rest)) :=
    accounts_decodeSpans hlast
  have hlater : Accounts last (decodeSpans rule functions rest) := accounts_decodeSpans hrest
  unfold Accounts at hwhole hlater
  rw [hwhole, hlater, tokens_of_piece h, List.filterMap_cons]
  cases token.report? last <;> rfl

end Decode

/-- The reports of a run are those of its tokens, in order: one for each bare id, with that id, and
one for a terminator, with the last byte of the segment. From the offset of any span on, the decoder
leaves the report of the span's token, if it has one, and then what it leaves from the span's end
on. -/
theorem reports_of_tokens (rule : MarkerRule) (functions : FunctionTable) (segment : List UInt8) :
    Message.reports (decodeSpans rule functions segment).log
        = ((decodeSpans rule functions segment).value.map Spanned.token).filterMap
            (Token.report? segment.getLast?)
      ∧ ∀ s ∈ (decodeSpans rule functions segment).value,
          Message.reports (decodeSpans rule functions (segment.drop s.offset)).log
            = (s.token.report? segment.getLast?).toList
              ++ Message.reports (decodeSpans rule functions (segment.drop s.stop)).log := by
  refine ⟨Decode.accounts_decodeSpans fun b hb => hb, fun s hs => ?_⟩
  obtain ⟨front, piece, rest, rfl, hoffset, hlength, hpiece⟩ :=
    (Decode.covers_decodeSpans rule functions segment).piece_of_mem hs
  have hstop : (front ++ (piece ++ rest)).drop s.stop = rest := by
    rw [Spanned.stop, hoffset, hlength, Nat.zero_add, ← List.drop_drop, List.drop_left,
      List.drop_left]
  rw [hstop, hoffset, Nat.zero_add, List.drop_left]
  refine Decode.reports_of_piece hpiece fun b hb => ?_
  rw [List.getLast?_append, Option.mem_def.1 hb]
  rfl

/-- A call without a name, a dropped marker with a message of another kind, a keyword, an id without
a name and a pair that is cut off. -/
theorem reports_of_tokens_sample :
    (decodeSpans .from81 BuiltIn.functions
          [0xff, 0x81, 0x28, 0x81, 0x81, 0x82, 0xb1, 0x85, 0x80, 0xf0, 0x90]).value
        = [⟨0, 2, .unknown 0xff⟩, ⟨2, 1, .openParen⟩, ⟨3, 3, .slot 2⟩, ⟨6, 2, .name 0xb1 "TRUE"⟩,
            ⟨8, 2, .unknown 0xf0⟩, ⟨10, 1, .terminator⟩]
      ∧ (decodeSpans .from81 BuiltIn.functions
          [0xff, 0x81, 0x28, 0x81, 0x81, 0x82, 0xb1, 0x85, 0x80, 0xf0, 0x90]).log
        = [.unresolvedId 0xff, .rulesDisagree 3 0x82, .unresolvedId 0xf0, .orphanPrefix 0x90]
      ∧ Message.reports (decodeSpans .from81 BuiltIn.functions [0x80, 0xf0, 0x90]).log
        = .unresolvedId 0xf0
          :: Message.reports (decodeSpans .from81 BuiltIn.functions [0x90]).log := by
  obtain ⟨-, hspan⟩ := reports_of_tokens .from81 BuiltIn.functions
    [0xff, 0x81, 0x28, 0x81, 0x81, 0x82, 0xb1, 0x85, 0x80, 0xf0, 0x90]
  exact ⟨by decide, by decide, hspan ⟨8, 2, .unknown 0xf0⟩ (by decide)⟩

end MissionScript
