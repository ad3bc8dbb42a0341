namespace FixTables

/-- The bytes of a text in UTF-8. -/
def utf8Bytes (s : String) : List UInt8 := s.toList.flatMap String.utf8EncodeChar

/-- A message type as a number: its UTF-8 bytes in order, the last eight of a longer text. -/
def packTypeId (msgType : String) : UInt64 :=
  (utf8Bytes msgType).foldl (fun id b => (id <<< 8) ||| b.toUInt64) 0

/-- The eight bytes of a number, the most significant one first. -/
def bytesOfId (id : UInt64) : List UInt8 :=
  [(id >>> 56).toUInt8, (id >>> 48).toUInt8, (id >>> 40).toUInt8, (id >>> 32).toUInt8,
    (id >>> 24).toUInt8, (id >>> 16).toUInt8, (id >>> 8).toUInt8, id.toUInt8]

/-- The text whose characters are the bytes of a number, without leading zeros. -/
def unpackTypeId (id : UInt64) : String :=
  String.ofList (((bytesOfId id).dropWhile (· == 0)).map Char.ofUInt8)

end FixTables
