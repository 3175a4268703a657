-- SUMMARY: The manual of the command line program: an overview, and a page for every topic.
import EntityQuery.Text.Basic

/-!
# The manual

The manual has an overview and a page for every topic. A topic has several
names, in any case. The pages are given line by line.
-/

namespace EntityQuery

/-! ## Topics -/

/-- What a page of the manual is about. -/
inductive Topic where
  | select
  | insert
  | update
  | delete
  | filters
  | literals
  | requests
deriving DecidableEq, Repr

namespace Topic

/-- The names of every topic, in lower case. -/
def names : List (Topic × List Text) := [
  (select, ["select".toList, "query".toList]),
  (insert, ["insert".toList, "create".toList]),
  (update, ["update".toList, "patch".toList]),
  (delete, ["delete".toList]),
  (filters, ["filters".toList, "filter".toList, "where".toList]),
  (literals, ["literals".toList, "literal".toList, "values".toList, "types".toList]),
  (requests, ["requests".toList, "request".toList, "odata".toList])]

/-- The topic with a name. All names are ASCII words. -/
def ofName? (name : Text) : Option Topic :=
  (names.find? fun (_, ns) => name.lower ∈ ns).map Prod.fst

example : ofName? "Where".toList = some filters ∧ ofName? "joins".toList = none := by decide

end Topic

/-! ## Pages -/

/-- Lines of text, each with the line end after it. -/
def Text.ofLines (lines : List String) : Text :=
  lines.flatMap fun line => line.toList ++ ['\n']

/-- The list of topics, with an example of every statement. -/
def Manual.overviewLines : List String := [
  "SQLO DOCUMENTATION",
  "",
  "sqlo translates one SQL-like statement into an OData v4 Web API request.",
  "Keywords are case-insensitive, identifiers are not, and the trailing ';'",
  "is optional.",
  "",
  "DOCUMENTATION CATEGORIES",
  "",
  "  select      Reading records: fields, WHERE, ORDER BY, LIMIT",
  "  insert      Creating a record",
  "  update      Changing records",
  "  delete      Removing records",
  "  filters     How WHERE clauses become $filter expressions",
  "  literals    How values are typed in INSERT and UPDATE",
  "  requests    Methods, URLs, headers and bodies produced",
  "",
  "QUICK REFERENCE",
  "",
  "  SELECT name, revenue FROM accounts WHERE revenue > 1000 ORDER BY name LIMIT 10",
  "  INSERT INTO accounts (name, revenue) VALUES ('Acme', 1000)",
  "  UPDATE accounts SET name = 'Acme Ltd' WHERE accountid = '\x7bGUID\x7d'",
  "  DELETE FROM accounts WHERE accountid = '\x7bGUID\x7d'",
  "",
  "Run 'sqlo doc <category>' for details."]

/-- About reading records. -/
def Manual.selectLines : List String := [
  "SELECT",
  "",
  "  SELECT <fields> FROM <entity> [WHERE <filter>] [ORDER BY <order>] [LIMIT <n>]",
  "",
  "  <fields>    Comma-separated column names, or * for all columns",
  "  <entity>    Entity set name: letters, digits and '_', not starting with a digit",
  "  <order>     Comma-separated '<field> [ASC|DESC]'; ASC when omitted",
  "  <n>         Non-negative integer",
  "",
  "  Examples:",
  "    SELECT * FROM contacts",
  "    SELECT fullname, emailaddress1 FROM contacts WHERE statecode = 0",
  "    SELECT name FROM accounts ORDER BY createdon DESC, name LIMIT 50",
  "",
  "  Maps to:",
  "    GET /api/data/v9.2/<entity>?$select=..&$filter=..&$orderby=..&$top=..",
  "",
  "  Not supported: joins, subqueries, aggregates, aliases."]

/-- About creating records. -/
def Manual.insertLines : List String := [
  "INSERT",
  "",
  "  INSERT INTO <entity> (<columns>) VALUES (<values>)",
  "",
  "  Columns and values are matched by position. By default extra values are",
  "  dropped and columns without a value are left out of the body, with a",
  "  warning. Use --strict to reject mismatched lists instead.",
  "",
  "  Commas inside quoted values do not split the list:",
  "    INSERT INTO contacts (lastname, city) VALUES ('Smith, J', 'Leeds')",
  "",
  "  Lookup bindings use the column name as written:",
  "    INSERT INTO contacts (lastname, parentcustomerid_account@odata.bind)",
  "      VALUES ('Smith', '/accounts(00000000-0000-0000-0000-000000000001)')",
  "",
  "  Maps to:",
  "    POST /api/data/v9.2/<entity> with the values as a JSON body.",
  "    The new id is returned by the service in the OData-EntityId header."]

/-- About changing records. -/
def Manual.updateLines : List String := [
  "UPDATE",
  "",
  "  UPDATE <entity> SET <column> = <value>[, ...] WHERE <filter>",
  "",
  "  Each assignment is split on its first '='.",
  "",
  "  A filter of the form <field>id = '<id>' targets one record:",
  "    UPDATE accounts SET name = 'X' WHERE accountid = '\x7b123\x7d'",
  "    -> PATCH /api/data/v9.2/accounts(123)",
  "",
  "  Any other filter needs a lookup first:",
  "    UPDATE account SET statecode = 1 WHERE revenue < 100",
  "    -> GET  /api/data/v9.2/account?$select=accountid&$filter=revenue lt 100",
  "    -> PATCH /api/data/v9.2/account(<accountid>) for each result",
  "",
  "  The key field read from each result is always <entity>id.",
  "",
  "  Record-by-record changes are not transactional: if one fails, the ones",
  "  before it stay applied.",
  "",
  "  Without WHERE the statement parses, but no request is built. Use --strict",
  "  to reject it at parse time."]

/-- About deleting records. -/
def Manual.deleteLines : List String := [
  "DELETE",
  "",
  "  DELETE FROM <entity> WHERE <filter>",
  "",
  "  Targeting works exactly as for UPDATE:",
  "    DELETE FROM accounts WHERE accountid = '\x7b123\x7d'",
  "    -> DELETE /api/data/v9.2/accounts(123)",
  "",
  "  Other filters are resolved with a lookup and one DELETE per record.",
  "  Without WHERE no request is built."]

/-- About filters. -/
def Manual.filtersLines : List String := [
  "FILTERS",
  "",
  "  WHERE clauses are rewritten token by token; they are not parsed.",
  "",
  "    AND           and",
  "    OR            or",
  "    =             eq",
  "    <> / !=       ne",
  "    >   <         gt   lt",
  "    >=  <=        ge   le",
  "    LIKE          contains",
  "    IS NULL       eq null",
  "    IS NOT NULL   ne null",
  "",
  "  Example:",
  "    age > 18 AND name = 'Bob'   ->   age gt 18 and name eq 'Bob'",
  "",
  "  Text inside single quotes is never rewritten. Parentheses and functions",
  "  are passed through unchanged; anything the service cannot understand is",
  "  rejected by the service, not by sqlo.",
  "",
  "  Filters already written in OData syntax pass through as they are:",
  "    WHERE accountid eq '\x7b123\x7d'"]

/-- About the typing of values. -/
def Manual.literalsLines : List String := [
  "LITERALS",
  "",
  "  Values in INSERT and UPDATE are typed as follows:",
  "",
  "    'text'          string (quotes removed, no escape processing)",
  "    42  -7  3.5     number",
  "    1e3             number",
  "    true  false     boolean (any case)",
  "    null            null (any case)",
  "    anything else   string, as written",
  "",
  "  Examples:",
  "    ('Acme', 1000, true, null)  ->  \"Acme\", 1000, true, null",
  "    (Acme)                      ->  \"Acme\"",
  "    ('1000')                    ->  \"1000\""]

/-- About requests. -/
def Manual.requestsLines : List String := [
  "REQUESTS",
  "",
  "  URL:      <base>/api/data/v<version>/<entity>[(<id>)]",
  "            version defaults to 9.2 (--api-version or SQLO_API_VERSION)",
  "",
  "  Headers:  Accept: application/json",
  "            OData-MaxVersion: 4.0",
  "            OData-Version: 4.0",
  "            Content-Type: application/json   (when there is a body)",
  "",
  "  Methods:  SELECT -> GET, INSERT -> POST, UPDATE -> PATCH, DELETE -> DELETE",
  "",
  "  Output:",
  "    sqlo request \"<sql>\" --base-url https://org.crm.dynamics.com",
  "    sqlo request \"<sql>\" --base-url ... --format http",
  "    sqlo request \"<sql>\" --base-url ... --encoded     percent-encode values"]

/-- The overview of the manual. -/
def Manual.overview : Text :=
  Text.ofLines Manual.overviewLines

/-- The lines of the page on a topic. -/
def Topic.lines : Topic → List String
  | select => Manual.selectLines
  | insert => Manual.insertLines
  | update => Manual.updateLines
  | delete => Manual.deleteLines
  | filters => Manual.filtersLines
  | literals => Manual.literalsLines
  | requests => Manual.requestsLines

/-- The page on a topic. -/
def Topic.page (t : Topic) : Text :=
  Text.ofLines t.lines

end EntityQuery
