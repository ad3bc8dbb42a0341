import FixTables.WireType

namespace FixTables

/-- The data types a dictionary declares for its fields. -/
inductive FieldType
  | int
  | length
  | seqNum
  | numInGroup
  | tagNum
  | dayOfMonth
  | float
  | qty
  | price
  | priceOffset
  | amt
  | percentage
  | char
  | boolean
  | string
  | multipleValueString
  | multipleCharValue
  | multipleStringValue
  | country
  | currency
  | exchange
  | monthYear
  | utcTimestamp
  | utcTimeOnly
  | utcDateOnly
  | utcDate
  | localMktDate
  | localMktTime
  | tzTimeOnly
  | tzTimestamp
  | time
  | date
  | data
  | xmlData
  | language
  | pattern
  | tenor
  | xid
  | xidRef
  | reserved
  deriving DecidableEq

namespace FieldType

/-- The spellings of the data types in dictionaries, in upper case. -/
def spellings : List (String × FieldType) :=
  [("INT", int), ("LENGTH", length), ("SEQNUM", seqNum), ("NUMINGROUP", numInGroup),
    ("TAGNUM", tagNum), ("DAYOFMONTH", dayOfMonth), ("FLOAT", float), ("QTY", qty),
    ("QUANTITY", qty), ("PRICE", price), ("PRICEOFFSET", priceOffset), ("AMT", amt),
    ("AMOUNT", amt), ("PERCENTAGE", percentage), ("CHAR", char), ("BOOLEAN", boolean),
    ("STRING", string), ("MULTIPLEVALUESTRING", multipleValueString),
    ("MULTIPLECHARVALUE", multipleCharValue), ("MULTIPLESTRINGVALUE", multipleStringValue),
    ("COUNTRY", country), ("CURRENCY", currency), ("EXCHANGE", exchange),
    ("MONTHYEAR", monthYear), ("UTCTIMESTAMP", utcTimestamp), ("UTCTIMEONLY", utcTimeOnly),
    ("UTCDATEONLY", utcDateOnly), ("UTCDATE", utcDate), ("LOCALMKTDATE", localMktDate),
    ("LOCALMKTTIME", localMktTime), ("TZTIMEONLY", tzTimeOnly), ("TZTIMESTAMP", tzTimestamp),
    ("TIME", time), ("DATE", date), ("DATA", data), ("XMLDATA", xmlData),
    ("LANGUAGE", language), ("PATTERN", pattern), ("TENOR", tenor), ("XID", xid),
    ("XIDREF", xidRef), ("RESERVED100PLUS", reserved), ("RESERVED1000PLUS", reserved),
    ("RESERVED4000PLUS", reserved)]

/-- Reads the spelling of a data type; the case of ASCII letters does not matter. -/
def ofSpelling? (s : String) : Option FieldType :=
  spellings.lookup (String.ofList (s.toList.map Char.toUpper))

/-- The names by which listings show the data types. -/
def names : List (FieldType × String) :=
  [(int, "Int"), (length, "Length"), (seqNum, "SeqNum"), (numInGroup, "NumInGroup"),
    (tagNum, "TagNum"), (dayOfMonth, "DayOfMonth"), (float, "Float"), (qty, "Qty"),
    (price, "Price"), (priceOffset, "PriceOffset"), (amt, "Amt"), (percentage, "Percentage"),
    (char, "Char"), (boolean, "Boolean"), (string, "String"),
    (multipleValueString, "MultipleValueString"), (multipleCharValue, "MultipleCharValue"),
    (multipleStringValue, "MultipleStringValue"), (country, "Country"),
    (currency, "Currency"), (exchange, "Exchange"), (monthYear, "MonthYear"),
    (utcTimestamp, "UtcTimestamp"), (utcTimeOnly, "UtcTimeOnly"), (utcDateOnly, "UtcDateOnly"),
    (utcDate, "UtcDate"), (localMktDate, "LocalMktDate"), (localMktTime, "LocalMktTime"),
    (tzTimeOnly, "TzTimeOnly"), (tzTimestamp, "TzTimestamp"), (time, "Time"), (date, "Date"),
    (data, "Data"), (xmlData, "XmlData"), (language, "Language"), (pattern, "Pattern"),
    (tenor, "Tenor"), (xid, "Xid"), (xidRef, "XidRef"), (reserved, "Reserved")]

def name (t : FieldType) : String := (names.lookup t).getD ""

def ofName? (s : String) : Option FieldType := (names.find? (·.2 = s)).map (·.1)

def wireType : FieldType → WireType
  | int | tagNum | dayOfMonth => .int
  | length => .length
  | seqNum => .seqNum
  | numInGroup => .numInGroup
  | float | qty | price | priceOffset | amt | percentage => .float
  | char => .char
  | boolean => .bool
  | string | language | pattern | tenor | xid | xidRef | reserved => .string
  | multipleValueString | multipleCharValue | multipleStringValue => .multiValue
  | country => .country
  | currency => .currency
  | exchange => .exchange
  | monthYear => .monthYear
  | utcTimestamp | tzTimestamp | time => .timestamp
  | utcTimeOnly | tzTimeOnly | localMktTime => .timeOnly
  | utcDateOnly | utcDate | localMktDate | date => .date
  | data | xmlData => .data

/-- Whether a field of this type counts the bytes of a data field. -/
def isLength (t : FieldType) : Bool := t = length

end FieldType

end FixTables
