import BitMachine.Json.Model
import BitMachine.Proofs.ImageRoundTrip
import BitMachine.Proofs.Utf8

namespace BitMachine

/-!
# Image files

An image is kept in a file as UTF-8:

* `Image.ofBytes_encodeUtf8` — the program of a file is that of its text;
* `Image.ofBytes_toBytes_iff` — a program is read back from its file if it is well-formed;
* `Config.ofBytes_toBytes` — no image file is a configuration.
-/

namespace Image

/-- **Reading an encoded image is parsing its text.** -/
theorem ofBytes_encodeUtf8 (text : String) :
    ofBytes (Text.encodeUtf8 text.toList) = parse text := by
  have hlines : (Text.byteLines (Text.encodeUtf8 text.toList)).map Text.decodeUtf8?
      = (Text.lines text.toList).map some := by
    rw [Text.byteLines_encodeUtf8, List.map_map]
    exact List.map_congr_left fun line _ => Text.decodeUtf8?_encodeUtf8 line
  rw [ofBytes, hlines, parse]

/-- **A program is read back from its file exactly if it is well-formed.** -/
theorem ofBytes_toBytes_iff {p : Program} : ofBytes (toBytes p) = .ok p ↔ p.WellFormed := by
  rw [toBytes, ofBytes_encodeUtf8]
  constructor
  · exact addLines_wellFormed Program.wellFormed_empty
  · intro hp
    exact ((parse_render p).resolve_right fun hnot => hnot.1 hp).2

end Image

/-- No JSON text starts with a semicolon. -/
theorem Json.parse?_semicolon {text : String} {rest : List Char} (h : text.toList = ';' :: rest) :
    Json.parse? text = none := by
  have hblank : skipBlanks (';' :: rest) = ';' :: rest := rfl
  rw [parse?, h, hblank]
  rfl

/-- **An image file is no configuration.** -/
theorem Config.ofBytes_toBytes (p : Program) :
    Config.ofBytes (Image.toBytes p) = .error .malformed := by
  have htitle : (Image.render p).toList
      = ';' :: (" ZEV program image\n".toList
        ++ (Image.imageLines p).tail.flatMap (· ++ ['\n'])) := by
    rw [Image.toList_render]
    rfl
  rw [ofBytes, Image.toBytes, Text.decodeUtf8?_encodeUtf8]
  simp only [String.ofList_toList]
  rw [parse, Json.parse?_semicolon htitle]
  rfl

end BitMachine
