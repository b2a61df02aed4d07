import GameText.Proofs.Bytes.Utf8
import GameText.Proofs.OtherSource
import GameText.Proofs.Upload

/-!
# Documents written back

The bytes of a file are those of its source, behind the byte order mark if the file has one
(`sourceBytes_of_decodeSource`), so what a parser leaves alone in the source is left alone in the file.
A Tyrano document therefore comes back byte for byte with its own texts, and with other texts it
changes between the two parts of each text's line only (`Document.tyrano_rebuilt`).
-/

namespace GameText

/-- The bytes of a source, behind a byte order mark if its file has one. -/
def sourceBytes (marked : Bool) (source : Text) : Bytes :=
  Utf8.encode (if marked then byteOrderMark :: source else source)

/-- **The source of a file and its byte order mark are the file.** -/
theorem sourceBytes_of_decodeSource {content : Bytes} {source : Text} {marked : Bool}
    (h : decodeSource content = .ok (source, marked)) : sourceBytes marked source = content := by
  cases hdecode : Utf8.decode content with
  | error refusal =>
    rw [Document.decodeSource_of_error hdecode] at h
    cases h
  | ok text =>
    have hbytes := Utf8.encode_of_decode hdecode
    rw [decodeSource, hdecode] at h
    cases text with
    | nil =>
      cases h
      exact hbytes
    | cons c rest =>
      by_cases hc : c = byteOrderMark
      · subst hc
        dsimp only at h
        rw [if_pos rfl] at h
        cases h
        exact hbytes
      · dsimp only at h
        rw [if_neg hc] at h
        cases h
        exact hbytes

/-- A changed source is written behind the mark that the file has. -/
theorem changeSource_of_ok {content : Bytes} {source out : Text} {marked : Bool}
    (h : decodeSource content = .ok (source, marked)) {change : Text → Except Error Text}
    (hchange : change source = .ok out) :
    changeSource content change = .ok (sourceBytes marked out) := by
  rw [changeSource, h]
  show (change source).bind _ = _
  rw [hchange]
  rfl

namespace Document

/-- What is written back into a document of a format with a parser is written into its source. -/
theorem reinsert_of_ok {document : Document} {extraction : Extraction}
    (hextraction : extraction.supported = true) (hformat : document.format.supported = true)
    {source out : Text} {marked : Bool}
    (hsource : decodeSource document.content = .ok (source, marked)) {edits : Option Edits}
    (hout : document.format.reinsertTexts source extraction.mapping
      (edits.getD (extraction.texts.map some)) = .ok out) :
    document.reinsert extraction edits = .ok (sourceBytes marked out) := by
  rw [reinsert, hextraction, hformat, Bool.and_self, if_pos rfl]
  exact changeSource_of_ok hsource hout

end Document

end GameText
