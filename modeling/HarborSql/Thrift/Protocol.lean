/-! The constants of the Thrift protocol and of the HiveServer2 service on it
(`thrift/protocol.rs`). -/

namespace HarborSql

def tStop : UInt8 := 0
def tBool : UInt8 := 2
def tByte : UInt8 := 3
def tDouble : UInt8 := 4
def tI16 : UInt8 := 6
def tI32 : UInt8 := 8
def tI64 : UInt8 := 10
def tString : UInt8 := 11
def tStruct : UInt8 := 12
def tMap : UInt8 := 13
def tSet : UInt8 := 14
def tList : UInt8 := 15

def tMessageCall : UInt8 := 1
def tMessageReply : UInt8 := 2
def tMessageException : UInt8 := 3
def tBinaryVersion1 : UInt32 := 0x80010000

def sparkCliServiceProtocolV7 : Int32 := 42247
def successStatus : Int32 := 0
def errorStatus : Int32 := 3
def invalidHandleStatus : Int32 := 4
def runningState : Int32 := 1
def finishedState : Int32 := 2
def canceledState : Int32 := 3
def errorState : Int32 := 5
def executeStatement : Int32 := 0
def columnBasedSet : Int32 := 1
def defaultFetchRows : Nat := 1000
def maxFetchRows : Nat := 10000

def booleanType : Int32 := 0
def tinyintType : Int32 := 1
def smallintType : Int32 := 2
def intType : Int32 := 3
def bigintType : Int32 := 4
def floatType : Int32 := 5
def doubleType : Int32 := 6
def stringType : Int32 := 7
def timestampType : Int32 := 8
def binaryType : Int32 := 9
def arrayType : Int32 := 10
def mapType : Int32 := 11
def structType : Int32 := 12
def decimalType : Int32 := 15
def dateType : Int32 := 17

def getColumns : Int32 := 6

def cliMaxDriverConnections : Int32 := 0
def cliMaxConcurrentActivities : Int32 := 1
def cliDataSourceName : Int32 := 2
def cliFetchDirection : Int32 := 8
def cliServerName : Int32 := 13
def cliSearchPatternEscape : Int32 := 14
def cliDbmsName : Int32 := 17
def cliDbmsVer : Int32 := 18
def cliAccessibleTables : Int32 := 19
def cliAccessibleProcedures : Int32 := 20
def cliCursorCommitBehavior : Int32 := 23
def cliDataSourceReadOnly : Int32 := 25
def cliDefaultTxnIsolation : Int32 := 26
def cliIdentifierCase : Int32 := 28
def cliIdentifierQuoteChar : Int32 := 29
def cliMaxColumnNameLen : Int32 := 30
def cliMaxCursorNameLen : Int32 := 31
def cliMaxSchemaNameLen : Int32 := 32
def cliMaxCatalogNameLen : Int32 := 34
def cliMaxTableNameLen : Int32 := 35
def cliTxnCapable : Int32 := 46
def cliUserName : Int32 := 47
def cliTxnIsolationOption : Int32 := 72
def cliIntegrity : Int32 := 73
def cliGetdataExtensions : Int32 := 81
def cliNullCollation : Int32 := 85
def cliAlterTable : Int32 := 86
def cliOrderByColumnsInSelect : Int32 := 90
def cliSpecialCharacters : Int32 := 94
def cliMaxColumnsInGroupBy : Int32 := 97
def cliMaxColumnsInIndex : Int32 := 98
def cliMaxColumnsInOrderBy : Int32 := 99
def cliMaxColumnsInSelect : Int32 := 100
def cliMaxColumnsInTable : Int32 := 101
def cliMaxIndexSize : Int32 := 102
def cliMaxRowSize : Int32 := 104
def cliMaxStatementLen : Int32 := 105
def cliMaxTablesInSelect : Int32 := 106
def cliMaxUserNameLen : Int32 := 107
def cliOjCapabilities : Int32 := 115
def cliXopenCliYear : Int32 := 10000
def cliCursorSensitivity : Int32 := 10001
def cliDescribeParameter : Int32 := 10002
def cliCatalogName : Int32 := 10003
def cliCollationSeq : Int32 := 10004
def cliMaxIdentifierLen : Int32 := 10005

def validFieldType (fieldType : UInt8) : Bool :=
  fieldType ∈ [tBool, tByte, tDouble, tI16, tI32, tI64, tString, tStruct, tMap, tSet, tList]

end HarborSql
