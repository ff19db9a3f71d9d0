import OrderKeeper.Json.Reader
import OrderKeeper.Text.Utf8

/-!
# Frames of a stream

A stream delivers frames of text or bytes, and the answers to pings. Bytes are read as text when they are UTF-8.
-/

namespace OrderKeeper

/-- What a stream delivers. -/
inductive Frame where
  | text (s : String)
  | binary (bytes : List UInt8)
  /-- The answer to a ping. -/
  | pong
deriving DecidableEq, Inhabited

namespace Frame

/-- The text of a frame. -/
def asText? : Frame → Option String
  | text s => some s
  | binary bytes => Text.Utf8.text? bytes
  | pong => none

/-- The JSON value of a frame. -/
def asJson? (f : Frame) : Option Json := f.asText?.bind Json.ofText?

end Frame

end OrderKeeper
